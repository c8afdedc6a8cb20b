import SrtVpn.Authorities
import SrtVpn.Dialogues

namespace SrtVpn.HttpDialogues

open BigEndian Utf8 Utf8Chars Text TextParts TextPrefixes TextFields Encoder Session Dispatch
  Programs LocalConn HttpProxy Socks5 OpenTargets
open Authorities (Authority splitHostPort_written)
open Segments (Willing Stop readHeader_stop le_of_stop incomplete_take incomplete_first hasHostLine)
open Dialogues (put granted readByte_put startForwardWithReply_put)

def crlf : Bytes := [0x0D, 0x0A]

def Word (w : Bytes) : Prop := w ≠ [] ∧ ∀ b ∈ w, 0x21 ≤ b ∧ b ≤ 0x7E

def Line (l : Bytes) : Prop := l ≠ [] ∧ 0x0D ∉ l ∧ 0x0A ∉ l

theorem ascii_crlf : ∀ b ∈ crlf, b < 0x80 :=
  List.forall_mem_cons.mpr ⟨by decide, List.forall_mem_singleton.mpr (by decide)⟩

section Lines

variable {x : UInt8} {pat a l text more : Bytes} {ls : List Bytes}

theorem position_cons (hx : ¬ (x :: text).take pat.length = pat) :
    position pat (x :: text) = (position pat text).map (· + 1) := by
  rw [position, if_neg]
  intro hpre
  exact hx (List.prefix_iff_eq_take.mp (List.isPrefixOf_iff_prefix.mp hpre)).symm

theorem position_of_prefix (hpre : pat <+: x :: text) : position pat (x :: text) = some 0 := by
  rw [position, if_pos (List.isPrefixOf_iff_prefix.mpr hpre)]

theorem position_skip (h : x ∉ a) (text : Bytes) :
    position (x :: pat) (a ++ text) = (position (x :: pat) text).map (· + a.length) := by
  induction a with
  | nil => simp
  | cons y a ih =>
      obtain ⟨hy, ha⟩ := not_or.mp (List.mem_cons.not.mp h)
      rw [List.cons_append, position_cons, ih ha, Option.map_map]
      · congr 1
      · intro hhead
        exact hy (List.cons.inj hhead).1.symm

theorem line_ends (hl : Line l) (text : Bytes) :
    position [0x0D, 0x0A] (l ++ (crlf ++ text)) = some l.length := by
  have hpre : [0x0D, 0x0A] <+: (0x0D : UInt8) :: ([0x0A] ++ text) :=
    List.prefix_append [0x0D, 0x0A] text
  rw [crlf, position_skip hl.2.1, List.cons_append, position_of_prefix hpre]
  simp

theorem lines_end (hls : ∀ l ∈ ls, Line l) (hne : ls ≠ []) (text : Bytes) :
    position crlfcrlf (ls.flatMap (· ++ crlf) ++ (crlf ++ text)) =
      some ((ls.flatMap (· ++ crlf)).length - 2) := by
  induction ls with
  | nil => exact absurd rfl hne
  | cons l ls ih =>
      obtain ⟨hl, hls⟩ := List.forall_mem_cons.mp hls
      rw [List.flatMap_cons, List.append_assoc, List.append_assoc, crlfcrlf, position_skip hl.2.1]
      cases ls with
      | nil =>
          have hpre : [0x0D, 0x0A, 0x0D, 0x0A] <+:
              (0x0D : UInt8) :: ([0x0A] ++ ([0x0D, 0x0A] ++ text)) :=
            List.prefix_append [0x0D, 0x0A, 0x0D, 0x0A] text
          rw [List.flatMap_nil, List.nil_append, crlf, List.cons_append, position_of_prefix hpre]
          simp
      | cons l' ls =>
          obtain ⟨hl', -⟩ := List.forall_mem_cons.mp hls
          obtain ⟨y, k, rfl⟩ := List.exists_cons_of_ne_nil hl'.1
          have hy : y ≠ 0x0D := fun hy => hl'.2.1 (by simp [hy])
          have hrest := ih hls (by simp)
          rw [crlfcrlf] at hrest
          simp only [List.flatMap_cons, crlf, List.cons_append, List.nil_append,
            List.append_assoc] at hrest ⊢
          rw [position_cons (by simp [hy]), position_cons (by simp), hrest]
          simp
          omega

theorem lines_apart (hls : ∀ l ∈ ls, Line l) :
    position lflf (ls.flatMap (· ++ crlf) ++ crlf) = none := by
  induction ls with
  | nil => decide
  | cons l ls ih =>
      obtain ⟨hl, hls⟩ := List.forall_mem_cons.mp hls
      rw [List.flatMap_cons, List.append_assoc, List.append_assoc, lflf, position_skip hl.2.2]
      have hrest : position lflf (ls.flatMap (· ++ crlf) ++ crlf) = none := ih hls
      obtain ⟨y, k, hy, hyk⟩ : ∃ y k, y ≠ 0x0A ∧ ls.flatMap (· ++ crlf) ++ crlf = y :: k := by
        cases ls with
        | nil => exact ⟨0x0D, [0x0A], by decide, rfl⟩
        | cons l' ls =>
            obtain ⟨hl', -⟩ := List.forall_mem_cons.mp hls
            obtain ⟨z, k, rfl⟩ := List.exists_cons_of_ne_nil hl'.1
            exact ⟨z, _, fun hz => hl'.2.2 (by simp [hz]), rfl⟩
      rw [lflf, hyk] at hrest
      rw [hyk, crlf]
      simp only [List.cons_append, List.nil_append]
      rw [position_cons (by simp), position_cons (by simp [hy]), hrest]
      rfl

end Lines

section Words

variable {w w' w'' h name value : Bytes} {pre : List Bytes}

theorem visible_bounds {b : UInt8} (hb : 0x21 ≤ b ∧ b ≤ 0x7E) :
    b < 0x80 ∧ isWhitespace [b] = false ∧ b ≠ 0x0D ∧ b ≠ 0x0A := by
  obtain ⟨hlo, hhi⟩ := hb
  have hlo' := UInt8.le_iff_toNat_le.mp hlo
  have hhi' := UInt8.le_iff_toNat_le.mp hhi
  have hvalue (k : UInt8) (hk : k.toNat < 0x21) : b ≠ k := by
    rintro rfl
    simp only [UInt8.reduceToNat] at hlo'
    omega
  refine ⟨UInt8.lt_iff_toNat_lt.mpr ?_, ?_, hvalue 0x0D (by decide), hvalue 0x0A (by decide)⟩
  · simp only [UInt8.reduceToNat] at hhi' ⊢
    omega
  · have hspace := hvalue 0x20 (by decide)
    have hcontrol : ¬ b ≤ 0x0D := by
      intro hle
      have hle' := UInt8.le_iff_toNat_le.mp hle
      simp only [UInt8.reduceToNat] at hle' hlo'
      omega
    simp [isWhitespace, hspace, hcontrol]

theorem Word.ascii (hw : Word w) : ∀ b ∈ w, b < 0x80 := fun b hb => (visible_bounds (hw.2 b hb)).1

theorem Word.line (hw : Word w) : 0x0D ∉ w ∧ 0x0A ∉ w :=
  ⟨fun hb => (visible_bounds (hw.2 _ hb)).2.2.1 rfl,
    fun hb => (visible_bounds (hw.2 _ hb)).2.2.2 rfl⟩

theorem chars_ascii {text : Bytes} (h : ∀ b ∈ text, b < 0x80) :
    chars text = text.map fun b => [b] := by
  have hall : ∀ c ∈ text.map fun b : UInt8 => [b], IsChar c := by
    intro c hc
    obtain ⟨b, hb, rfl⟩ := List.mem_map.mp hc
    exact isChar_ascii (h b hb)
  have hflat : (text.map fun b : UInt8 => [b]).flatten = text := by
    induction text with
    | nil => rfl
    | cons b text ih =>
        rw [List.map_cons, List.flatten_cons,
          ih (fun b hb => h b (List.mem_cons_of_mem _ hb)) fun c hc =>
          hall c (List.mem_cons_of_mem _ hc)]
        rfl
  have hchars := chars_flatten hall
  rw [hflat] at hchars
  exact hchars

theorem wordsLoop_word (hw : ∀ b ∈ w, 0x21 ≤ b ∧ b ≤ 0x7E) (word : Bytes) (hne : word ++ w ≠ []) :
    wordsLoop (w.map fun b => [b]) word = [word ++ w] := by
  induction w generalizing word with
  | nil =>
      rw [List.append_nil] at hne ⊢
      rw [List.map_nil, wordsLoop, if_neg hne]
  | cons b w ih =>
      have hb := visible_bounds (hw b List.mem_cons_self)
      rw [List.map_cons, wordsLoop, if_neg (by rw [hb.2.1]; decide),
        ih (fun x hx => hw x (List.mem_cons_of_mem _ hx)) (word ++ [b]) (by simp),
          List.append_assoc]
      rfl

theorem splitWhitespace_words (hw : Word w) (hw' : Word w') (hw'' : Word w'') :
    splitWhitespace (w ++ 0x20 :: (w' ++ 0x20 :: w'')) = [w, w', w''] := by
  have hascii : ∀ b ∈ w ++ 0x20 :: (w' ++ 0x20 :: w''), b < 0x80 := by
    intro b hb
    simp only [List.mem_append, List.mem_cons] at hb
    rcases hb with hb | rfl | hb | rfl | hb
    · exact hw.ascii b hb
    · decide
    · exact hw'.ascii b hb
    · decide
    · exact hw''.ascii b hb
  have hone {v : Bytes} (hv : Word v) : wordsLoop (v.map fun b => [b]) [] = [v] :=
    wordsLoop_word hv.2 [] hv.1
  rw [splitWhitespace, chars_ascii hascii, List.map_append, List.map_cons, List.map_append,
    List.map_cons, wordsLoop_append (by decide), wordsLoop_append (by decide), hone hw, hone hw',
      hone hw'']
  rfl

theorem trim_word (hw : Word w) : trim (0x20 :: w) = w := by
  have hascii : ∀ b ∈ (0x20 : UInt8) :: w, b < 0x80 :=
    List.forall_mem_cons.mpr ⟨by decide, hw.ascii⟩
  have hkeep : ∀ c ∈ w.map fun b : UInt8 => [b], isWhitespace c = false := by
    intro c hc
    obtain ⟨b, hb, rfl⟩ := List.mem_map.mp hc
    exact (visible_bounds (hw.2 b hb)).2.1
  have hdrop : ∀ cs : List Bytes, (∀ c ∈ cs, isWhitespace c = false) →
      cs.dropWhile isWhitespace = cs := by
    intro cs hcs
    cases cs with
    | nil => rfl
    | cons c cs => rw [List.dropWhile_cons_of_neg (by simp [hcs c List.mem_cons_self])]
  rw [trim, chars_ascii hascii, List.map_cons, List.dropWhile_cons_of_pos (by decide),
    hdrop _ hkeep, hdrop _ fun c hc => hkeep c (List.mem_reverse.mp hc), List.reverse_reverse]
  exact List.flatMap_singleton' w

theorem linesLoop_line (hh : 0x0A ∉ h) (line : Bytes) : linesLoop (h ++ [0x0A]) line =
    [if (line ++ h).getLast? = some 0x0D then (line ++ h).dropLast else line ++ h] := by
  induction h generalizing line with
  | nil => rw [List.append_nil, List.nil_append, linesLoop, if_pos rfl, linesLoop, if_pos rfl]
  | cons b h ih =>
      obtain ⟨hb, hh⟩ := not_or.mp (List.mem_cons.not.mp hh)
      rw [List.cons_append, linesLoop, if_neg (Ne.symm hb), ih hh (line ++ [b]), List.append_assoc]
      rfl

theorem find_hostLine (hpre : ∀ l ∈ pre, hasHostLine (fromUtf8Lossy (l ++ crlf)) = false)
    (hh : ∀ b ∈ h, b < 0x80) (hlf : 0x0A ∉ h)
    (hhost : (ascii "host:").isPrefixOf (h.map lower) = true) (more : Bytes) :
    (lines (fromUtf8Lossy (pre.flatMap (· ++ crlf) ++ (h ++ crlf ++ more)))).find?
      (fun l => (ascii "host:").isPrefixOf (l.map lower)) =
      some h := by
  have hlast (l : Bytes) : ∀ x, (l ++ crlf).getLast? = some x → x < 0x80 := by
    intro x hx
    rw [crlf, List.getLast?_append_of_ne_nil _ (by simp)] at hx
    obtain rfl := Option.some.inj hx
    decide
  induction pre with
  | nil =>
      have hascii : ∀ b ∈ h ++ crlf, b < 0x80 := ascii_append hh ascii_crlf
      have hsplit : h ++ crlf ++ fromUtf8Lossy more =
          (h ++ [0x0D]) ++ 0x0A :: fromUtf8Lossy more := by simp [crlf]
      have hline : linesLoop ((h ++ [0x0D]) ++ [0x0A]) [] = [h] := by
        rw [linesLoop_line (by simp [hlf])]
        simp
      rw [List.flatMap_nil, List.nil_append, fromUtf8Lossy_append _ (hlast h),
        fromUtf8Lossy_of_valid (valid_of_ascii hascii), lines, hsplit,
        linesLoop_append, hline, List.singleton_append]
      exact List.find?_cons_of_pos hhost
  | cons l pre ih =>
      obtain ⟨hl, hpre⟩ := List.forall_mem_cons.mp hpre
      have hend : fromUtf8Lossy (l ++ crlf) = fromUtf8Lossy (l ++ [0x0D]) ++ [0x0A] := by
        have hsplit : l ++ crlf = (l ++ [0x0D]) ++ [0x0A] := by simp [crlf]
        have hfeed : fromUtf8Lossy [0x0A] = [0x0A] :=
          fromUtf8Lossy_of_valid (valid_of_ascii (List.forall_mem_singleton.mpr (by decide)))
        rw [hsplit, fromUtf8Lossy_append _ (by simp), hfeed]
      rw [hasHostLine, lines, hend] at hl
      rw [List.flatMap_cons, List.append_assoc, fromUtf8Lossy_append _ (hlast l), lines, hend,
        List.append_assoc, List.singleton_append, linesLoop_append, List.find?_append,
          Option.isSome_eq_false_iff.mp hl |> Option.isNone_iff_eq_none.mp]
      exact ih hpre

theorem hostHeader_found (hpre : ∀ l ∈ pre, hasHostLine (fromUtf8Lossy (l ++ crlf)) = false)
    (hname : name.map lower = ascii "host") (hascii : ∀ b ∈ name, b < 0x80) (hvalue : Word value)
    (more : Bytes) :
    hostHeader (fromUtf8Lossy
      (pre.flatMap (· ++ crlf) ++ ((name ++ 0x3A :: 0x20 :: value) ++ crlf ++ more))) = value := by
  have hnot (x : UInt8) (hx : lower x ∉ ascii "host") : x ∉ name := by
    intro hmem
    rw [← hname] at hx
    exact hx (List.mem_map_of_mem hmem)
  have hall : ∀ b ∈ name ++ 0x3A :: 0x20 :: value, b < 0x80 :=
    ascii_append hascii
      (List.forall_mem_cons.mpr ⟨by decide, List.forall_mem_cons.mpr ⟨by decide, hvalue.ascii⟩⟩)
  have hlf : 0x0A ∉ name ++ 0x3A :: 0x20 :: value := by
    simp [hnot 0x0A (by decide +kernel), hvalue.line.2]
  have hhost : (ascii "host:").isPrefixOf ((name ++ 0x3A :: 0x20 :: value).map lower) = true := by
    have hstart : ascii "host:" = name.map lower ++ [lower 0x3A] := by
      rw [hname]
      decide +kernel
    rw [hstart, List.isPrefixOf_iff_prefix, List.map_append, List.prefix_append_right_inj]
    exact ⟨_, rfl⟩
  rw [hostHeader, find_hostLine hpre hall hlf hhost]
  simp only [Option.bind_some, splitOnce_field (hnot 0x3A (by decide +kernel)), Option.map_some,
    Option.getD_some]
  exact trim_word hvalue

end Words

section Reading

variable {header : Bytes} {c : Conn} {q : Nat}

theorem readHeader_done (fuel : Nat) (hopen : complete header = false)
    (hq : complete ((header ++ c.input).take q) = true) (hmax : q ≤ headerMax)
    (hfuel : c.input.length < fuel) :
    ∃ h input sizes, exec (readHeader fuel header) c =
      (.ok h, { c with input := input, sizes := sizes }) := by
  induction fuel generalizing header c with
  | zero => omega
  | succ fuel ih =>
      have hsome : c.input ≠ [] := by
        intro hnil
        rw [hnil, List.append_nil] at hq
        have hnot : complete (header.take q) = false := by
          by_cases hle : q ≤ header.length
          · exact incomplete_take hle (by rw [List.take_length]; exact hopen)
          · rw [List.take_of_length_le (Nat.le_of_not_le hle)]
            exact hopen
        rw [hnot] at hq
        cases hq
      have hgrain : 0 < c.grain 4096 := by
        rw [Conn.grain]
        omega
      have hread : exec (LocalConn.read "读 HTTP 请求头失败: " 4096) c =
          (.ok (c.input.take (c.grain 4096)),
            { c with input := c.input.drop (c.grain 4096), sizes := c.sizes.tail }) := by
        simp only [LocalConn.read, exec_of, hsome, if_false]
      have htake : c.input.take (c.grain 4096) ≠ [] := by
        rw [← List.length_pos_iff, List.length_take]
        have hpos := List.length_pos_iff.mpr hsome
        omega
      rw [readHeader, exec_bind_ok hread, if_neg htake]
      split
      · exact ⟨_, _, _, rfl⟩
      next hmore =>
        have hmore' : complete (header ++ c.input.take (c.grain 4096)) = false :=
          (Bool.not_eq_true _).mp hmore
        have hstream : (header ++ c.input.take (c.grain 4096)) ++ c.input.drop (c.grain 4096) =
            header ++ c.input := by
          rw [List.append_assoc, List.take_append_drop]
        have hroom : ¬ headerMax < (header ++ c.input.take (c.grain 4096)).length := by
          intro hlong
          have hle : q ≤ (header ++ c.input.take (c.grain 4096)).length := by omega
          rw [← hstream, List.take_append_of_le_length hle,
            incomplete_take hle (by rw [List.take_length]; exact hmore')] at hq
          cases hq
        rw [if_neg hroom]
        have hlength : (c.input.drop (c.grain 4096)).length < fuel := by
          rw [List.length_drop]
          have hpos := List.length_pos_iff.mpr hsome
          omega
        obtain ⟨h, input, sizes, hexec⟩ :=
          ih (c := { c with input := c.input.drop (c.grain 4096), sizes := c.sizes.tail }) hmore'
          (by rw [hstream]; exact hq) hlength
        exact ⟨h, input, sizes, hexec⟩

end Reading

/-- How a request names its target: a CONNECT, a URL, or a path with a Host line behind some other
lines. -/
inductive Form
  | connect
  | absolute (secure : Bool) (tail : Bytes)
  | origin (path : Bytes) (before : List Bytes) (name : Bytes)

/-- What an HTTP client says: its request line and its header lines, of which the Host line is
another where it names the target. -/
structure Request where
  method : Bytes
  form : Form
  authority : Authority
  version : Bytes
  fields : List Bytes

namespace Request

def scheme (secure : Bool) : Bytes := if secure then ascii "https://" else ascii "http://"

def target (q : Request) : Bytes :=
  match q.form with
  | .connect => q.authority.written
  | .absolute secure tail => scheme secure ++ (q.authority.written ++ tail)
  | .origin path _ _ => path

def line (q : Request) : Bytes := q.method ++ 0x20 :: (q.target ++ 0x20 :: q.version)

def lines (q : Request) : List Bytes :=
  match q.form with
  | .origin _ before name =>
      q.line :: before ++ (name ++ 0x3A :: 0x20 :: q.authority.written) :: q.fields
  | _ => q.line :: q.fields

def head (q : Request) : Bytes := q.lines.flatMap (· ++ crlf) ++ crlf

def defaultPort (q : Request) : UInt16 :=
  match q.form with
  | .connect => 443
  | .absolute secure _ => if secure then 443 else 80
  | .origin _ _ _ => 80

def host (q : Request) : Bytes := q.authority.host.bare

def port (q : Request) : UInt16 :=
  match q.authority.port with
  | none => q.defaultPort
  | some p => UInt16.ofNat p.value

def reply (q : Request) : Bytes :=
  match q.form with
  | .connect => ascii "HTTP/1.1 200 Connection established\r\n\r\n"
  | _ => []

/-- The bytes that the target is to get: those behind the head of a CONNECT, and of other requests
all. -/
def forwarded (q : Request) (rest : Bytes) : Bytes :=
  match q.form with
  | .connect => rest
  | _ => q.head ++ rest

/-- What the form of the target asks of the rest of the request. -/
def Formed (q : Request) : Prop :=
  match q.form with
  | .connect => q.method.map lower = ascii "connect"
  | .absolute _ tail => isConnect q.method = false ∧
      (0x2F ∉ q.authority.written ∧ 0x3F ∉ q.authority.written) ∧
      ∀ x, tail.head? = some x → x = 0x2F ∨ x = 0x3F
  | .origin path before name => isConnect q.method = false ∧ path.head? = some 0x2F ∧
      name.map lower = ascii "host" ∧
      (∀ b ∈ name, b < 0x80) ∧ ∀ l ∈ q.line :: before,
      hasHostLine (fromUtf8Lossy (l ++ crlf)) = false

/-- The request is one of the seven methods that are told apart from SOCKS5, is written in visible
ASCII, and its head and host are not too long. -/
structure Wellformed (q : Request) : Prop where
  start : ∃ b, q.method.head? = some b ∧ isHttpStart b = true ∧ b ≠ socks5Version
  method : Word q.method
  target : Word q.target
  version : Word q.version
  authority : Word q.authority.written
  port : ∀ p, q.authority.port = some p → p.value < 65536
  lines : ∀ l ∈ q.lines, Line l
  form : q.Formed
  head : q.head.length ≤ headerMax
  host : q.host.length ≤ 255

end Request

section Request

variable {q : Request} {more : Bytes}

namespace Request

theorem lines_cons (q : Request) : ∃ ls, q.lines = q.line :: ls := by
  rw [lines]
  cases q.form with
  | connect => exact ⟨_, rfl⟩
  | absolute secure tail => exact ⟨_, rfl⟩
  | origin path before name => exact ⟨_, rfl⟩

theorem Wellformed.requestLine (h : q.Wellformed) (more : Bytes) :
    requestLine (fromUtf8Lossy (q.head ++ more)) = q.line := by
  obtain ⟨ls, hls⟩ := q.lines_cons
  have hline : Line q.line := h.lines q.line (by rw [hls]; exact List.mem_cons_self)
  have hascii : ∀ b ∈ q.line ++ crlf, b < 0x80 := by
    refine ascii_append ?_ ascii_crlf
    exact ascii_append h.method.ascii (List.forall_mem_cons.mpr ⟨by decide,
      ascii_append h.target.ascii (List.forall_mem_cons.mpr ⟨by decide, h.version.ascii⟩)⟩)
  have hsplit : q.head ++ more = (q.line ++ crlf) ++ (ls.flatMap (· ++ crlf) ++ crlf ++ more) := by
    rw [Request.head, hls, List.flatMap_cons]
    simp only [List.append_assoc]
  have hlast : ∀ x, (q.line ++ crlf).getLast? = some x → x < 0x80 :=
    fun x hx => hascii x (List.mem_of_getLast? hx)
  rw [hsplit, fromUtf8Lossy_append _ hlast, fromUtf8Lossy_of_valid (valid_of_ascii hascii),
    HttpProxy.requestLine, List.append_assoc, line_ends hline, Option.getD_some, List.take_left]

theorem Wellformed.foundPort (h : q.Wellformed) : q.authority.foundPort q.defaultPort = q.port := by
  rw [Authority.foundPort, Request.port]
  cases hport : q.authority.port with
  | none => rfl
  | some p => exact if_pos (h.port p hport)

theorem stripPrefix_none {pat text : Bytes} {x y : UInt8} {k : Nat} (hx : pat[k]? = some x)
    (hy : text[k]? = some y) (hne : x ≠ y) : stripPrefix pat text = none := by
  rw [stripPrefix, if_neg]
  intro hpre
  obtain ⟨rest, rfl⟩ := List.isPrefixOf_iff_prefix.mp hpre
  rw [List.getElem?_append_left (List.getElem?_eq_some_iff.mp hx).1, hx] at hy
  exact hne (Option.some.inj hy)

theorem authority_upTo {written tail : Bytes} (hwritten : 0x2F ∉ written ∧ 0x3F ∉ written)
    (htail : ∀ x, tail.head? = some x → x = 0x2F ∨ x = 0x3F) :
    HttpProxy.authority (written ++ tail) = written := by
  have hall : ∀ b ∈ written, decide (b ≠ 0x2F ∧ b ≠ 0x3F) = true := by
    intro b hb
    simp only [decide_eq_true_eq]
    exact ⟨fun hslash => hwritten.1 (hslash ▸ hb), fun hquery => hwritten.2 (hquery ▸ hb)⟩
  rw [HttpProxy.authority, List.takeWhile_append_of_pos hall]
  cases tail with
  | nil => rw [List.takeWhile_nil, List.append_nil]
  | cons x tail =>
      have hstop := htail x rfl
      rw [List.takeWhile_cons_of_neg, List.append_nil]
      rcases hstop with rfl | rfl <;> decide

theorem Wellformed.destination (h : q.Wellformed) (more : Bytes) :
    destination q.method q.target (fromUtf8Lossy (q.head ++ more)) = (q.host, q.port) := by
  have hform := h.form
  have hsplit : splitHostPort q.authority.written q.defaultPort = (q.host, q.port) := by
    rw [splitHostPort_written, h.foundPort]
    rfl
  rw [Formed] at hform
  rw [HttpProxy.destination]
  cases hq : q.form with
  | connect =>
      rw [hq] at hform
      rw [defaultPort, hq] at hsplit
      rw [if_pos (by rw [isConnect]; simpa using hform), Request.target, hq]
      exact hsplit
  | absolute secure tail =>
      rw [hq] at hform
      obtain ⟨hconnect, hwritten, htail⟩ := hform
      rw [defaultPort, hq] at hsplit
      rw [if_neg (by rw [hconnect]; decide), Request.target, hq]
      cases secure with
      | false =>
          simp only [scheme, Bool.false_eq_true, if_false] at hsplit ⊢
          rw [stripPrefix_append]
          simp only [authority_upTo hwritten htail]
          exact hsplit
      | true =>
          have hnone : stripPrefix (ascii "http://")
              (ascii "https://" ++ (q.authority.written ++ tail)) = none := by
            refine stripPrefix_none (x := 0x3A) (y := 0x73) (k := 4)
              (by decide +kernel) ?_ (by decide)
            rw [List.getElem?_append_left (by decide +kernel)]
            decide +kernel
          simp only [scheme, if_true] at hsplit ⊢
          rw [hnone]
          simp only [stripPrefix_append, authority_upTo hwritten htail]
          exact hsplit
  | origin path before name =>
      rw [hq] at hform
      obtain ⟨hconnect, hpath, hname, hascii, hbefore⟩ := hform
      rw [defaultPort, hq] at hsplit
      have hzero : path[0]? = some 0x2F := by rw [← List.head?_eq_getElem?]; exact hpath
      have hhead : q.head ++ more = (q.line :: before).flatMap (· ++ crlf) ++
          ((name ++ 0x3A :: 0x20 :: q.authority.written) ++ crlf ++
            (q.fields.flatMap (· ++ crlf) ++ crlf ++ more)) := by
        rw [Request.head, Request.lines, hq]
        simp only [List.flatMap_append, List.flatMap_cons, List.append_assoc]
      rw [if_neg (by rw [hconnect]; decide), Request.target, hq]
      simp only
      rw [stripPrefix_none (x := 0x68) (k := 0) (by decide +kernel) hzero (by decide),
        stripPrefix_none (x := 0x68) (k := 0) (by decide +kernel) hzero (by decide), hhead,
        hostHeader_found hbefore hname hascii h.authority]
      exact hsplit

theorem Wellformed.ends (h : q.Wellformed) (more : Bytes) :
    position crlfcrlf (q.head ++ more) = some (q.head.length - 4) := by
  obtain ⟨ls, hls⟩ := q.lines_cons
  have hpos := lines_end h.lines (by rw [hls]; simp) more
  have hlength : q.head.length - 4 = (q.lines.flatMap (· ++ crlf)).length - 2 := by
    rw [Request.head, List.length_append]
    have htwo : crlf.length = 2 := rfl
    omega
  rw [hlength, ← hpos, Request.head, List.append_assoc]

theorem Wellformed.length_head (h : q.Wellformed) : 4 ≤ q.head.length := by
  have hle := position_le (h.ends [])
  have hfour : crlfcrlf.length = 4 := rfl
  rw [List.append_nil] at hle
  omega

theorem Wellformed.complete (h : q.Wellformed) : complete q.head = true := by
  have hpos := h.ends []
  rw [List.append_nil] at hpos
  rw [HttpProxy.complete, hpos]
  rfl

end Request

theorem Request.Wellformed.read (h : q.Wellformed) {first : UInt8} {tail : Bytes}
    (hfirst : q.head = first :: tail) (rest : Bytes) (c : Conn) :
    ∃ early later sizes, early ++ later = rest ∧
    exec (readHeader ((tail ++ rest).length + 1) [first]) (put c (tail ++ rest) c.written) =
      (.ok (q.head ++ early), put { c with sizes := sizes } later c.written) := by
  have hstream : [first] ++ (tail ++ rest) = q.head ++ rest := by simp [hfirst]
  have hdone : HttpProxy.complete
      (([first] ++ (put c (tail ++ rest) c.written).input).take q.head.length) = true := by
    change HttpProxy.complete (([first] ++ (tail ++ rest)).take q.head.length) = true
    rw [hstream, List.take_left]
    exact h.complete
  obtain ⟨header, later, sizes, hread⟩ :=
    readHeader_done ((tail ++ rest).length + 1) (incomplete_first first) hdone h.head
    (Nat.lt_succ_self _)
  obtain ⟨hstop, hwhole⟩ :=
    readHeader_stop _ (List.cons_ne_nil first []) (by decide : 1 ≤ headerMax)
      (incomplete_first first) hread
  change Stop ([first] ++ (tail ++ rest)) header.length at hstop
  change header ++ later = [first] ++ (tail ++ rest) at hwhole
  rw [hstream] at hstop hwhole
  have hfour : q.head.length - 4 + 4 = q.head.length := by
    have hlength := h.length_head
    omega
  have happart : position lflf ((q.head ++ rest).take (q.head.length - 4 + 4)) = none := by
    rw [hfour, List.take_left]
    exact lines_apart h.lines
  have hle := le_of_stop (h.ends rest) happart hstop
  rw [hfour] at hle
  have hpre : q.head <+: header :=
    List.prefix_of_prefix_length_le (List.prefix_append q.head rest)
      (hwhole ▸ List.prefix_append header later) hle
  obtain ⟨early, rfl⟩ := hpre
  rw [List.append_assoc, List.append_cancel_left_eq] at hwhole
  exact ⟨early, later, sizes, hwhole, hread⟩

theorem Request.Wellformed.request (h : q.Wellformed) {c : Conn} {sid : UInt16} {ch : Nat}
    {reg : SessionRegistry Bytes} (early later : Bytes) (hc : Willing c)
    (halloc : c.tunnel.registry.allocate = (some (sid, ch), reg)) :
    ∃ sent, sent ++ later = q.forwarded (early ++ later) ∧
    exec (request (q.head ++ early)) (put c later c.written) =
      (.ok (.forwarding sid), put
        (granted c sid reg (sendOpen sid protoTcp q.host q.port :: sendDataBatch sid sent)) later
        (c.written ++ q.reply)) := by
  have hwords := splitWhitespace_words h.method h.target h.version
  rw [← Request.line, ← h.requestLine early] at hwords
  have hgo (reply prepend : Bytes) :
      exec (startForwardWithReply q.host q.port reply prepend) (put c later c.written) =
        (.ok (.forwarding sid),
          put (granted c sid reg (sendOpen sid protoTcp q.host q.port :: sendDataBatch sid prepend))
            later (c.written ++ reply)) :=
    startForwardWithReply_put hc halloc q.port reply prepend
      (Nat.le_trans h.host (by decide : 255 ≤ 765))
  have hform := h.form
  rw [Request.Formed] at hform
  simp only [HttpProxy.request, hwords, h.destination early]
  cases hq : q.form with
  | connect =>
      rw [hq] at hform
      have hconnect : isConnect q.method = true := by rw [isConnect]; simpa using hform
      have hend : (q.head ++ early).drop (headerEnd (q.head ++ early)) = early := by
        have hlength := h.length_head
        rw [headerEnd, h.ends early]
        simp only [show q.head.length - 4 + 4 = q.head.length by omega, List.drop_left]
      rw [if_pos hconnect, hend]
      refine ⟨early, by rw [Request.forwarded, hq], ?_⟩
      rw [Request.reply, hq]
      exact hgo _ early
  | absolute secure tail =>
      rw [hq] at hform
      rw [if_neg (by rw [hform.1]; decide)]
      refine ⟨q.head ++ early, by rw [Request.forwarded, hq, List.append_assoc], ?_⟩
      rw [Request.reply, hq]
      exact hgo _ _
  | origin path before name =>
      rw [hq] at hform
      rw [if_neg (by rw [hform.1]; decide)]
      refine ⟨q.head ++ early, by rw [Request.forwarded, hq, List.append_assoc], ?_⟩
      rw [Request.reply, hq]
      exact hgo _ _

theorem Request.Wellformed.valid_host (h : q.Wellformed) : Valid q.host := by
  apply valid_of_ascii
  intro b hb
  apply h.authority.ascii b
  have hwritten : b ∈ q.authority.host.written := by
    rw [Request.host] at hb
    cases hhost : q.authority.host with
    | name text colon plain =>
        rw [hhost] at hb
        exact hb
    | literal text plain =>
        rw [hhost] at hb
        exact List.mem_cons_of_mem _ (List.mem_append_left _ hb)
  rw [Authority.written]
  cases q.authority.port with
  | none => exact hwritten
  | some p => exact List.mem_append_left _ hwritten

end Request

def asksPage : Request where
  method := ascii "GET"
  form := .origin (ascii "/x") [ascii "Accept: */*"] (ascii "Host")
  authority := ⟨.name (ascii "b.net") (by decide +kernel) ⟨by decide +kernel, by decide +kernel⟩,
    some ⟨ascii "8080", by decide +kernel, by decide +kernel⟩⟩
  version := ascii "HTTP/1.1"
  fields := []

theorem asksPage_wellformed : asksPage.Wellformed where
  start := ⟨0x47, by decide +kernel, by decide +kernel, by decide⟩
  method := ⟨by decide +kernel, by decide +kernel⟩
  target := ⟨by decide +kernel, by decide +kernel⟩
  version := ⟨by decide +kernel, by decide +kernel⟩
  authority := ⟨by decide +kernel, by decide +kernel⟩
  port := fun p hp => by
    obtain rfl := Option.some.inj hp
    decide +kernel
  lines := by
    unfold Line
    decide +kernel
  form := ⟨by decide +kernel, by decide +kernel, by decide +kernel, by decide +kernel, by decide +kernel⟩
  head := by decide +kernel
  host := by decide +kernel

end SrtVpn.HttpDialogues
