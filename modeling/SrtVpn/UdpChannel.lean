import SrtVpn.FragmentOrder
import SrtVpn.ReassemblyInvariant

namespace SrtVpn.UdpChannel

open BigEndian Tables Utf8 Wire UdpFrames Reassembly Splicing FragmentOrder ReassemblyInvariant
open HostileFragments (Swollen hostLen hostBytes)

/-- A datagram that one end of a UDP session sends to the other, with the address in its header. One
that fits a single frame must not look like a fragment. -/
structure Message where
  host : Bytes
  port : UInt16
  payload : Bytes
  valid : Valid host
  host_le : host.length ≤ 255
  payload_le : payload.length ≤ 65535
  unmarked : payload.length + ((encodeUdpAddrHeaderHost host port).length + 5) ≤ frameDataMax →
    payload ≠ [] ∧ payload.head? ≠ some udpFragMark

namespace Message

variable (m : Message)

def header : Bytes := encodeUdpAddrHeaderHost m.host m.port

def target : Target := (m.host, m.port)

def frames : List Bytes := splitUdpFrames m.header m.payload

/-- What the receiver gets to see, however the message was cut up. -/
def full : Bytes := m.header ++ m.payload

def Large : Prop := frameDataMax < m.payload.length + (m.header.length + 5)

instance : Decidable m.Large := inferInstanceAs (Decidable (_ < _))

def datagram (h : m.Large) : Datagram where
  host := m.host
  port := m.port
  payload := m.payload
  valid := m.valid
  host_le := Nat.le_trans m.host_le (by decide)
  payload_le := m.payload_le
  large := h

def datagram? : Option Datagram := if h : m.Large then some (m.datagram h) else none

theorem parse_full : parseUdpAddrHeader m.full = some (m.host, m.port, m.payload) :=
  parseUdpAddrHeader_encode m.host m.port m.payload m.host_le m.valid

theorem frames_small (h : ¬ m.Large) : m.frames = [m.full] := if_pos (Nat.not_lt.mp h)

theorem push_small (h : ¬ m.Large) (now : Nat) (r : UdpReassembler Bytes) :
    push now r m.full = some (some m.full, r) := by
  obtain ⟨hne, hmark⟩ := m.unmarked (Nat.not_lt.mp h)
  obtain ⟨mark, rest, hpayload⟩ := List.exists_cons_of_ne_nil hne
  have hparse : parseFrame m.full = .whole := by
    rw [full, hpayload]
    apply (parseFrame_of_header m.port rest m.host_le m.valid mark).2
    rintro rfl
    exact hmark (by rw [hpayload]; rfl)
  rw [push, pushWith, hparse]
  rfl

theorem header_of_mem {frame : Bytes} (h : frame ∈ m.frames) :
    ∃ rest, frame = m.header ++ rest := by
  rw [frames, splitUdpFrames] at h
  split at h
  · exact ⟨m.payload, List.mem_singleton.mp h⟩
  · obtain ⟨idx, -, rfl⟩ := List.mem_map.mp h
    rw [fragment, List.append_assoc, List.append_assoc, List.append_assoc]
    exact ⟨_, rfl⟩

theorem not_swollen {frame : Bytes} (h : frame ∈ m.frames) : ¬ Swollen frame := by
  obtain ⟨rest, rfl⟩ := m.header_of_mem h
  apply ReassemblyInvariant.not_swollen
  intro _
  have hlen : hostLen (m.header ++ rest) = m.host.length := by
    change (UInt8.ofNat m.host.length).toNat = m.host.length
    rw [UInt8.toNat_ofNat', Nat.mod_eq_of_lt (Nat.lt_succ_of_le m.host_le)]
  have hhost : hostBytes (m.header ++ rest) = m.host := by
    rw [hostBytes, hlen, header, encodeUdpAddrHeaderHost, List.cons_append, List.cons_append,
      List.tail_cons, List.append_assoc]
    exact List.take_left
  rw [hhost]
  exact m.valid

end Message

/-- A frame that a receiver takes, and what its reassembler returns for it. -/
structure Receipt where
  now : Nat
  frame : Bytes
  out : Option Bytes

inductive Receives : UdpReassembler Bytes → List Receipt → UdpReassembler Bytes → Prop
  | done (r : UdpReassembler Bytes) : Receives r [] r
  | next {r r₀ r₁ r' : UdpReassembler Bytes} {a : Receipt} {log : List Receipt} :
      r₀ = r ∨ r₀ = cleanupExpired a.now r → push a.now r₀ a.frame = some (a.out, r₁) →
      Receives r₁ log r' →
      Receives r (a :: log) r'

def Idle (r : UdpReassembler Bytes) : Prop := ∀ key, find r.pending key = none

/-- All frames arrive within the time that a group is kept. -/
def Prompt (burst : List Receipt) : Prop :=
  ∀ a ∈ burst, ∀ b, burst.head? = some b → a.now ≤ b.now + reasmExpiry

/-- The group of `d` is the only one; it has the first `k` fragments and is there since `since`. -/
structure Holding (d : Datagram) (k since : Nat) (r : UdpReassembler Bytes) : Prop where
  waiting : Waiting d (List.range k) r
  others : ∀ key, key ≠ d.target → find r.pending key = none
  fresh : k = 0 → find r.pending d.target = none
  group : k ≠ 0 → (find r.pending d.target).isSome = true ∧ find r.createdAt d.target = some since

section Steps

variable {d : Datagram} {k since now : Nat} {r r' : UdpReassembler Bytes}

theorem Idle.cleanup (h : Idle r) (now : Nat) : Idle (cleanupExpired now r) := by
  intro key
  rw [(find_cleanup r now key).1, h key, ite_self]

theorem Idle.holding (h : Idle r) (d : Datagram) (since : Nat) : Holding d 0 since r :=
  ⟨waiting_nil (h d.target), fun key _ => h key, fun _ => h d.target, fun hk => absurd rfl hk⟩

theorem waiting_congr {got : List Nat} (h : Waiting d got r)
    (hsame : find r'.pending d.target = find r.pending d.target) :
    Waiting d got r' := by
  intro k
  have hgroup : groupFor r'.pending (d.toFragment k) = groupFor r.pending (d.toFragment k) := by
    simp only [groupFor]
    rw [show (d.toFragment k).target = d.target from rfl, hsame]
  rw [hgroup]
  exact h k

theorem Holding.cleanup (h : Holding d k since r) (hnow : k ≠ 0 → now ≤ since + reasmExpiry) :
    Holding d k since (cleanupExpired now r) := by
  have hsame : find (cleanupExpired now r).pending d.target = find r.pending d.target ∧
      find (cleanupExpired now r).createdAt d.target = find r.createdAt d.target ∨ k = 0 := by
    by_cases hk : k = 0
    · exact Or.inr hk
    · have hyoung : expired now r d.target = false := by
        have hle := hnow hk
        rw [expired, (h.group hk).2, Option.any_some, decide_eq_false_iff_not]
        omega
      obtain ⟨hpending, hcreated⟩ := find_cleanup r now d.target
      rw [hyoung] at hpending hcreated
      exact Or.inl ⟨hpending, hcreated⟩
  have hnone : ∀ key, find r.pending key = none →
      find (cleanupExpired now r).pending key = none := by
    intro key hkey
    rw [(find_cleanup r now key).1, hkey, ite_self]
  rcases hsame with ⟨hpending, hcreated⟩ | rfl
  · exact ⟨waiting_congr h.waiting hpending, fun key hkey => hnone key (h.others key hkey),
      fun hk => hpending.trans (h.fresh hk),
        fun hk => ⟨by rw [hpending]; exact (h.group hk).1, hcreated.trans (h.group hk).2⟩⟩
  · have hempty := hnone d.target (h.fresh rfl)
    exact ⟨waiting_nil hempty, fun key hkey => hnone key (h.others key hkey), fun _ => hempty,
      fun hk => absurd rfl hk⟩

theorem isOwn_fragment (hhost : d.host.length ≤ 255) (hk : k < d.count) {key : Target}
    (hne : key ≠ d.target) : isOwn key (fragment d.header d.payload d.count k) = false := by
  rw [isOwn, d.parseFrame_fragment hhost hk]
  simpa using Ne.symm hne

theorem Holding.more (h : Holding d k since r) (hhost : d.host.length ≤ 255)
    (hmore : k + 1 < d.count) (hnow : k = 0 → now = since) :
    ∃ r', push now r (fragment d.header d.payload d.count k) = some (none, r') ∧
    Holding d (k + 1) since r' := by
  have hk : k < d.count := Nat.lt_of_succ_lt hmore
  have hnew : k ∉ List.range k := by simp
  obtain ⟨r', hpush, hwait⟩ :=
    push_more h.waiting hhost hk hnew (by rw [List.length_range]; exact hmore) now
  rw [← List.range_succ] at hwait
  refine ⟨r', hpush, hwait, fun key hkey => ?_, fun hz => absurd hz (Nat.succ_ne_zero k),
    fun _ => ?_⟩
  · rw [(push_foreign (isOwn_fragment hhost hk hkey) hpush).1]
    exact h.others key hkey
  · have hreceived :
        (storePart (groupFor r.pending (d.toFragment k)) (d.toFragment k) d.header).received ≠
          d.count := by
      rw [((h.waiting k).store hk hnew).received, List.length_append, List.length_range,
        List.length_singleton]
      exact Nat.ne_of_lt hmore
    rw [push_fragment h.waiting hhost hk now, finish_incomplete r now d.target hreceived] at hpush
    obtain ⟨-, rfl⟩ := Prod.mk.inj (Option.some.inj hpush)
    refine ⟨by rw [find_insert_self]; rfl, ?_⟩
    change find (started r now d.target) d.target = some since
    rw [started]
    by_cases hz : k = 0
    · rw [h.fresh hz, hnow hz]
      exact find_insert_self _ _ _
    · obtain ⟨hsome, hcreated⟩ := h.group hz
      rw [if_neg (by simpa [Option.isSome_iff_ne_none] using hsome)]
      exact hcreated

theorem Holding.last (h : Holding d k since r) (hhost : d.host.length ≤ 255)
    (hlast : k + 1 = d.count) (now : Nat) :
    ∃ r', push now r (fragment d.header d.payload d.count k) =
      some (some (d.header ++ d.payload), r') ∧ Idle r' := by
  have hk : k < d.count := Nat.lt_of_succ_le (Nat.le_of_eq hlast)
  have hall : (List.range k ++ [k]).Perm (List.range d.count) := by
    rw [← List.range_succ, Nat.succ_eq_add_one, hlast]
  obtain ⟨r', hpush, hgone⟩ := push_last h.waiting hhost hk (by simp) hall now
  refine ⟨r', hpush, fun key => ?_⟩
  by_cases hkey : key = d.target
  · rw [hkey]
    exact hgone.1
  · rw [(push_foreign (isOwn_fragment hhost hk hkey) hpush).1]
    exact h.others key hkey

end Steps

theorem Receives.reachable {r r' : UdpReassembler Bytes} {log : List Receipt}
    (hrun : Receives r log r') (h : Reachable r) : Reachable r' := by
  induction hrun with
  | done r => exact h
  | next hclean hpush _ ih =>
      apply ih
      rcases hclean with rfl | rfl
      · exact h.push hpush
      · exact (h.cleanup _).push hpush

section InOrder

variable {r r' : UdpReassembler Bytes} {log burst : List Receipt}

/-- What is returned for the frames of one message: nothing but for the last of them. -/
def answers (full : Bytes) (n : Nat) : List (Option Bytes) :=
  List.replicate (n - 1) none ++ [some full]

theorem Receives.cons_inv {a : Receipt} (h : Receives r (a :: log) r') : ∃ r₀ r₁,
    (r₀ = r ∨ r₀ = cleanupExpired a.now r) ∧ push a.now r₀ a.frame = some (a.out, r₁) ∧
    Receives r₁ log r' := by
  cases h with
  | next hclean hpush hrest => exact ⟨_, _, hclean, hpush, hrest⟩

theorem Receives.nil_inv (h : Receives r [] r') : r' = r := by
  cases h with
  | done => rfl

theorem Receives.snoc {r₀ r₁ : UdpReassembler Bytes} {a : Receipt} (h : Receives r log r')
    (hclean : r₀ = r' ∨ r₀ = cleanupExpired a.now r')
    (hpush : push a.now r₀ a.frame = some (a.out, r₁)) :
    Receives r (log ++ [a]) r₁ := by
  induction h with
  | done r => exact .next hclean hpush (.done r₁)
  | next hfirst hstep _ ih => exact .next hfirst hstep (ih hclean)

theorem Receives.append_inv {log log' : List Receipt} (h : Receives r (log ++ log') r') :
    ∃ u, Receives r log u ∧ Receives u log' r' := by
  induction log generalizing r with
  | nil => exact ⟨r, .done r, h⟩
  | cons a log ih =>
      obtain ⟨r₀, r₁, hclean, hpush, hrest⟩ := h.cons_inv
      obtain ⟨u, hfirst, hsecond⟩ := ih hrest
      exact ⟨u, .next hclean hpush hfirst, hsecond⟩

theorem receives_fragments {d : Datagram} (hhost : d.host.length ≤ 255) {k since : Nat}
    (hk : k < d.count) (h : Holding d k since r) (hrun : Receives r log r')
    (hframes : log.map Receipt.frame = d.frames.drop k)
    (hfirst : k = 0 → ∀ a, log.head? = some a → a.now = since)
    (hprompt : ∀ a ∈ log, a.now ≤ since + reasmExpiry) :
    log.map Receipt.out = answers (d.header ++ d.payload) (d.count - k) ∧ Idle r' := by
  induction log generalizing k r with
  | nil =>
      have hlen := congrArg List.length hframes
      rw [List.map_nil, List.length_nil, List.length_drop] at hlen
      have hcount : d.frames.length = d.count := by
        rw [← List.length_map, idxOf_frames hhost, List.length_range]
      omega
  | cons a log ih =>
      have hget := d.getElem?_frames k
      rw [if_pos hk] at hget
      rw [List.map_cons, List.drop_eq_getElem?_toList_append, hget] at hframes
      obtain ⟨hframe, hrest⟩ := List.cons.inj hframes
      obtain ⟨hnow, hlater⟩ := List.forall_mem_cons.mp hprompt
      obtain ⟨r₀, r₁, hclean, hpush, hrun⟩ := hrun.cons_inv
      have hheld : Holding d k since r₀ := by
        rcases hclean with rfl | rfl
        · exact h
        · exact h.cleanup fun _ => hnow
      rw [hframe] at hpush
      by_cases hlast : k + 1 = d.count
      · obtain ⟨r₂, hpush', hidle⟩ := hheld.last hhost hlast a.now
        obtain ⟨hout, rfl⟩ := Prod.mk.inj (Option.some.inj (hpush.symm.trans hpush'))
        have hcount : d.frames.length = d.count := by
          rw [← List.length_map, idxOf_frames hhost, List.length_range]
        rw [List.drop_eq_nil_of_le (by omega)] at hrest
        obtain rfl := List.map_eq_nil_iff.mp hrest
        obtain rfl := hrun.nil_inv
        have hone : d.count - k = 1 := by omega
        rw [hone, List.map_singleton, hout]
        exact ⟨rfl, hidle⟩
      · obtain ⟨r₂, hpush', hnext⟩ := hheld.more hhost (by omega) fun hz => hfirst hz a rfl
        obtain ⟨hout, rfl⟩ := Prod.mk.inj (Option.some.inj (hpush.symm.trans hpush'))
        obtain ⟨houts, hidle⟩ :=
          ih (by omega) hnext hrun hrest (fun hz => absurd hz (Nat.succ_ne_zero k)) hlater
        refine ⟨?_, hidle⟩
        obtain ⟨n, hn⟩ : ∃ n, d.count - (k + 1) = n + 1 := ⟨d.count - (k + 1) - 1, by omega⟩
        have hmore : d.count - k = n + 2 := by omega
        rw [List.map_cons, houts, hout, hn, hmore]
        rfl

theorem receives_message (m : Message) (h : Idle r) (hrun : Receives r burst r')
    (hframes : burst.map Receipt.frame = m.frames) (hprompt : Prompt burst) :
    burst.map Receipt.out = answers m.full burst.length ∧ Idle r' := by
  have hlen := congrArg List.length hframes
  rw [List.length_map] at hlen
  by_cases hlarge : m.Large
  · have hhost : (m.datagram hlarge).host.length ≤ 255 := m.host_le
    have hcount : m.frames.length = (m.datagram hlarge).count := by
      rw [← List.length_range (n := (m.datagram hlarge).count), ← idxOf_frames hhost,
        List.length_map]
      rfl
    have hpos := (m.datagram hlarge).one_lt_count
    cases burst with
    | nil =>
        rw [List.length_nil] at hlen
        omega
    | cons a burst =>
        have hrec := receives_fragments hhost (k := 0) (Nat.zero_lt_of_lt hpos)
          (h.holding (m.datagram hlarge) a.now) hrun hframes
            (fun _ b hb => by rw [Option.some.inj hb]) fun b hb => hprompt b hb a rfl
        rw [Nat.sub_zero, ← hcount, ← hlen] at hrec
        exact hrec
  · rw [m.frames_small hlarge] at hframes
    obtain ⟨a, rest, rfl⟩ :=
      List.exists_cons_of_ne_nil (l := burst) (by rintro rfl; simp at hframes)
    obtain ⟨hframe, hrest⟩ := List.cons.inj hframes
    obtain rfl := List.map_eq_nil_iff.mp hrest
    obtain ⟨r₀, r₁, hclean, hpush, hrun⟩ := hrun.cons_inv
    obtain rfl := hrun.nil_inv
    have hidle : Idle r₀ := by
      rcases hclean with rfl | rfl
      · exact h
      · exact h.cleanup a.now
    rw [hframe, m.push_small hlarge] at hpush
    obtain ⟨hout, rfl⟩ := Prod.mk.inj (Option.some.inj hpush)
    exact ⟨by rw [List.map_singleton, ← hout]; rfl, hidle⟩

end InOrder

section AnyOrder

variable {ms : List Message} {r r' : UdpReassembler Bytes} {log : List Receipt}

def larges (ms : List Message) : List Datagram := ms.filterMap Message.datagram?

/-- No two messages that need fragments have the same address and the same length. -/
def Apart (ms : List Message) : Prop :=
  ms.Pairwise fun m n => m.Large → m.target = n.target → m.payload.length ≠ n.payload.length

theorem datagram?_eq_some {m : Message} {d : Datagram} (h : m.datagram? = some d) :
    ∃ hlarge : m.Large, d = m.datagram hlarge := by
  rw [Message.datagram?] at h
  split at h
  next hlarge => exact ⟨hlarge, (Option.some.inj h).symm⟩
  next => cases h

theorem datagram?_of_large {m : Message} (h : m.Large) : m.datagram? = some (m.datagram h) :=
  dif_pos h

theorem distinct_larges (h : Apart ms) : Distinct (larges ms) := by
  have hpair : (larges ms).Pairwise fun d e => d.target = e.target →
      d.payload.length ≠ e.payload.length := by
    apply List.Pairwise.filterMap Message.datagram? _ h
    intro m n hmn d hd e he
    obtain ⟨hlarge, rfl⟩ := datagram?_eq_some hd
    obtain ⟨-, rfl⟩ := datagram?_eq_some he
    exact hmn hlarge
  rw [List.pairwise_iff_getElem] at hpair
  intro i j d e hi hj htarget hlen
  obtain ⟨hilt, rfl⟩ := List.getElem?_eq_some_iff.mp hi
  obtain ⟨hjlt, rfl⟩ := List.getElem?_eq_some_iff.mp hj
  rcases Nat.lt_trichotomy i j with hlt | heq | hlt
  · exact absurd hlen (hpair i j hilt hjlt hlt htarget)
  · exact heq
  · exact absurd hlen.symm (hpair j i hjlt hilt hlt htarget.symm)

def Fed (ms : List Message) (r : UdpReassembler Bytes) : Prop :=
  ∃ evs, afterAll (fun _ part => part) (larges ms) evs = some r

theorem fed_new (ms : List Message) : Fed ms .new := ⟨[], rfl⟩

theorem Fed.cleanup (h : Fed ms r) (now : Nat) : Fed ms (cleanupExpired now r) := by
  obtain ⟨evs, hrun⟩ := h
  refine ⟨evs ++ [.cleanup now], ?_⟩
  rw [afterAll_append, hrun]
  rfl

theorem Fed.push (h : Fed ms r) (hapart : Apart ms) {m : Message} (hm : m ∈ ms) {frame : Bytes}
    (hframe : frame ∈ m.frames) {now : Nat} {out : Option Bytes}
    (hpush : Reassembly.push now r frame = some (out, r')) :
    (∀ full, out = some full → ∃ m ∈ ms, full = m.full) ∧ Fed ms r' := by
  by_cases hlarge : m.Large
  · obtain ⟨evs, hrun⟩ := h
    have hmem : m.datagram hlarge ∈ larges ms :=
      List.mem_filterMap.mpr ⟨m, hm, datagram?_of_large hlarge⟩
    obtain ⟨i, hi⟩ := List.getElem?_of_mem hmem
    obtain ⟨k, hk⟩ := List.getElem?_of_mem (l := (m.datagram hlarge).frames) hframe
    have hsource : frameOf (larges ms) i k = some frame := by rw [frameOf, hi, Option.bind_some, hk]
    constructor
    · rintro full rfl
      have hshort : ∀ d ∈ larges ms, d.host.length ≤ 255 := by
        intro d hd
        obtain ⟨n, -, hn⟩ := List.mem_filterMap.mp hd
        obtain ⟨-, rfl⟩ := datagram?_eq_some hn
        exact n.host_le
      obtain ⟨j, d, hj, rfl, -⟩ :=
        unspliced_of_distinct hshort (distinct_larges hapart) evs now i k frame r full r' hrun
        hsource hpush
      obtain ⟨n, hn, hd⟩ := List.mem_filterMap.mp (List.mem_of_getElem? hj)
      obtain ⟨-, rfl⟩ := datagram?_eq_some hd
      exact ⟨n, hn, rfl⟩
    · obtain ⟨⟨o, u⟩, hwith, heq⟩ := Option.map_eq_some_iff.mp hpush
      obtain rfl : u = r' := (Prod.mk.inj heq).2
      refine ⟨evs ++ [.deliver now i k], ?_⟩
      rw [afterAll_append, hrun, Option.bind_some, arrive, hsource, Option.bind_some]
      exact Option.map_eq_some_iff.mpr ⟨(o, u), hwith, rfl⟩
  · rw [m.frames_small hlarge, List.mem_singleton] at hframe
    rw [hframe, m.push_small hlarge] at hpush
    obtain ⟨rfl, rfl⟩ := Prod.mk.inj (Option.some.inj hpush)
    exact ⟨fun full hfull => ⟨m, hm, (Option.some.inj hfull).symm⟩, h⟩

/-- Whatever is lost, delayed or repeated: what comes out are messages that were sent. -/
theorem receives_sent (h : Fed ms r) (hapart : Apart ms) (hrun : Receives r log r')
    (hframes : ∀ a ∈ log, ∃ m ∈ ms, a.frame ∈ m.frames) :
    ∀ a ∈ log, ∀ full, a.out = some full → ∃ m ∈ ms, full = m.full := by
  induction log generalizing r with
  | nil => simp
  | cons a log ih =>
      obtain ⟨⟨m, hm, hframe⟩, hrest⟩ := List.forall_mem_cons.mp hframes
      obtain ⟨r₀, r₁, hclean, hpush, hrun⟩ := hrun.cons_inv
      have hfed : Fed ms r₀ := by
        rcases hclean with rfl | rfl
        · exact h
        · exact h.cleanup a.now
      obtain ⟨hout, hnext⟩ := hfed.push hapart hm hframe hpush
      exact List.forall_mem_cons.mpr ⟨hout, ih hnext hrun hrest⟩

end AnyOrder

section Turns

variable {T X : Type} (frame? : T → Option Bytes) (now : T → Nat)

/-- A run as its reassembler sees it: the turns that bring a frame, and what comes of each. -/
structure Observes (r : UdpReassembler Bytes) (turns : List T) (hist : List (T × Receipt))
    (r' : UdpReassembler Bytes) : Prop where
  taking : hist.map Prod.fst = turns.filter fun t => (frame? t).isSome
  frames : ∀ p ∈ hist, frame? p.1 = some p.2.frame ∧ p.2.now = now p.1
  receives : Receives r (hist.map Prod.snd) r'

/-- What follows from all that the reassembler returns, where `answer` says it of one turn. -/
def told (answer : T → Bytes → List X) (hist : List (T × Receipt)) : List X :=
  hist.flatMap fun p => (p.2.out.map (answer p.1)).getD []

def completes (turns : List T) : Option T := (turns.filter fun t => (frame? t).isSome).getLast?

/-- The frames arrive within the time that a group is kept. -/
def Within (turns : List T) : Prop :=
  ∀ t ∈ turns, ∀ u ∈ turns, (frame? t).isSome → (frame? u).isSome → now t ≤ now u + reasmExpiry

instance (turns : List T) : Decidable (Within frame? now turns) :=
  inferInstanceAs (Decidable (∀ _ ∈ _, _))

/-- The bursts arrive one after the other, each within the time that a group is kept. -/
def InTurn (stretches : List (List T)) (bursts : List (List Bytes)) : Prop :=
  List.Forall₂ (fun stretch burst => stretch.filterMap frame? = burst ∧ Within frame? now stretch)
    stretches bursts

variable {frame?} {now} {r r' : UdpReassembler Bytes} {turns turns' : List T}
  {hist hist' : List (T × Receipt)} {t : T} {answer : T → Bytes → List X}

namespace Observes

theorem nil (r : UdpReassembler Bytes) : Observes frame? now r ([] : List T) [] r :=
  ⟨rfl, by simp, .done r⟩

theorem quiet (h : Observes frame? now r turns hist r') (hframe : frame? t = none) :
    Observes frame? now r (turns ++ [t]) hist r' := by
  refine ⟨?_, h.frames, h.receives⟩
  rw [List.filter_append, List.filter_cons_of_neg (by simp [hframe]), List.filter_nil,
    List.append_nil]
  exact h.taking

theorem taken {r₀ r₁ : UdpReassembler Bytes} {frame : Bytes} {out : Option Bytes}
    (h : Observes frame? now r turns hist r') (hframe : frame? t = some frame)
    (hclean : r₀ = r' ∨ r₀ = cleanupExpired (now t) r')
    (hpush : push (now t) r₀ frame = some (out, r₁)) :
    Observes frame? now r (turns ++ [t]) (hist ++ [(t, ⟨now t, frame, out⟩)]) r₁ := by
  constructor
  · rw [List.map_append, h.taking, List.filter_append, List.filter_cons_of_pos (by simp [hframe])]
    rfl
  · intro p hp
    rcases List.mem_append.mp hp with hp | hp
    · exact h.frames p hp
    · rw [List.mem_singleton.mp hp]
      exact ⟨hframe, rfl⟩
  · rw [List.map_append]
    exact h.receives.snoc hclean hpush

theorem append_inv (h : Observes frame? now r (turns ++ turns') hist r') :
    ∃ first last u, hist = first ++ last ∧
    Observes frame? now r turns first u ∧ Observes frame? now u turns' last r' := by
  obtain ⟨htaking, hframes, hreceives⟩ := h
  rw [List.filter_append] at htaking
  obtain ⟨first, last, rfl, hfirst, hlast⟩ := List.map_eq_append_iff.mp htaking
  rw [List.map_append] at hreceives
  obtain ⟨u, hbefore, hbehind⟩ := hreceives.append_inv
  exact ⟨first, last, u, rfl, ⟨hfirst, fun p hp => hframes p (List.mem_append_left _ hp), hbefore⟩,
    ⟨hlast, fun p hp => hframes p (List.mem_append_right _ hp), hbehind⟩⟩

theorem map_frame (h : Observes frame? now r turns hist r') :
    (hist.map Prod.snd).map Receipt.frame = turns.filterMap frame? := by
  calc (hist.map Prod.snd).map Receipt.frame = hist.map fun p => p.2.frame := List.map_map
    _ = hist.filterMap fun p => frame? p.1 := by
        rw [← List.filterMap_eq_map]
        apply List.filterMap_congr
        intro p hp
        exact (h.frames p hp).1.symm
    _ = (hist.map Prod.fst).filterMap frame? := by rw [List.filterMap_map]; rfl
    _ = turns.filterMap frame? := by
        rw [h.taking, List.filterMap_filter]
        apply List.filterMap_congr
        intro t _
        cases frame? t <;> rfl

theorem mem_turns (h : Observes frame? now r turns hist r') {p : T × Receipt} (hp : p ∈ hist) :
    p.1 ∈ turns := by
  have hmem : p.1 ∈ hist.map Prod.fst := List.mem_map_of_mem hp
  rw [h.taking] at hmem
  exact List.mem_of_mem_filter hmem

theorem prompt (h : Observes frame? now r turns hist r') (hwithin : Within frame? now turns) :
    Prompt (hist.map Prod.snd) := by
  intro a ha b hb
  obtain ⟨p, hp, rfl⟩ := List.mem_map.mp ha
  obtain ⟨q, hq, rfl⟩ := List.mem_map.mp (List.mem_of_head? hb)
  rw [(h.frames p hp).2, (h.frames q hq).2]
  exact hwithin p.1 (h.mem_turns hp) q.1 (h.mem_turns hq) (by simp [h.frames p hp])
    (by simp [h.frames q hq])

end Observes

theorem told_nothing (h : ∀ p ∈ hist, p.2.out = none) : told answer hist = [] := by
  apply List.flatMap_eq_nil_iff.mpr
  intro p hp
  rw [h p hp]
  rfl

theorem told_append (answer : T → Bytes → List X) (hist hist' : List (T × Receipt)) :
    told answer (hist ++ hist') = told answer hist ++ told answer hist' := List.flatMap_append

theorem told_singleton (answer : T → Bytes → List X) (t : T) (a : Receipt) :
    told answer [(t, a)] = (a.out.map (answer t)).getD [] :=
  List.flatMap_singleton ..

theorem Observes.message (answer : T → Bytes → List X) (h : Observes frame? now r turns hist r')
    (hidle : Idle r) (m : Message) (hframes : turns.filterMap frame? = m.frames)
    (hwithin : Within frame? now turns) :
    (∃ t, completes frame? turns = some t ∧ told answer hist = answer t m.full) ∧ Idle r' := by
  obtain ⟨hout, hidle'⟩ :=
    receives_message m hidle h.receives (h.map_frame.trans hframes) (h.prompt hwithin)
  refine ⟨?_, hidle'⟩
  rw [completes, ← h.taking]
  rcases List.eq_nil_or_concat hist with rfl | ⟨before, p, rfl⟩
  · simp [answers] at hout
  · rw [List.concat_eq_append] at hout ⊢
    rw [List.map_map, List.map_append] at hout
    obtain ⟨hnone, hlast⟩ := List.append_inj' hout rfl
    have hbefore : told answer before = [] := by
      apply told_nothing
      intro q hq
      have hmem : q.2.out ∈ before.map (Receipt.out ∘ Prod.snd) :=
        List.mem_map_of_mem (f := Receipt.out ∘ Prod.snd) hq
      rw [hnone] at hmem
      exact List.eq_of_mem_replicate hmem
    have hfull : p.2.out = some m.full := List.singleton_inj.mp hlast
    refine ⟨p.1, by rw [List.map_append, List.map_singleton, List.getLast?_concat], ?_⟩
    rw [told_append, hbefore, told, List.flatMap_singleton, hfull]
    rfl

/-- Messages that arrive one after the other are told one by one, in order, each in the turn of its
last frame. -/
theorem Observes.in_order (answer : T → Bytes → List X) {stretches : List (List T)}
    {ms : List Message} (h : Observes frame? now r stretches.flatten hist r')
    (hturn : InTurn frame? now stretches (ms.map Message.frames)) (hidle : Idle r) :
    (stretches.filterMap (completes frame?)).length = ms.length ∧
      told answer hist =
        (List.zipWith (fun t m => answer t (Message.full m))
          (stretches.filterMap (completes frame?)) ms).flatten := by
  rw [InTurn, List.forall₂_map_right_iff] at hturn
  induction hturn generalizing r hist with
  | nil =>
      obtain rfl := List.map_eq_nil_iff.mp h.taking
      exact ⟨rfl, rfl⟩
  | @cons stretch m stretches ms hfirst _ ih =>
      rw [List.flatten_cons] at h
      obtain ⟨first, last, u, rfl, hone, hrest⟩ := h.append_inv
      obtain ⟨⟨t, hlast, htold⟩, hnext⟩ := hone.message answer hidle m hfirst.1 hfirst.2
      obtain ⟨hlen, hrest⟩ := ih hrest hnext
      rw [List.filterMap_cons_some hlast, List.length_cons, List.length_cons, hlen, told_append,
        htold, hrest, List.zipWith_cons_cons, List.flatten_cons]
      exact ⟨rfl, rfl⟩

theorem Observes.in_order_same (answer : Bytes → List X) {stretches : List (List T)}
    {ms : List Message} (h : Observes frame? now r stretches.flatten hist r')
    (hturn : InTurn frame? now stretches (ms.map Message.frames)) (hidle : Idle r) :
    told (fun _ => answer) hist = ms.flatMap fun m => answer m.full := by
  obtain ⟨hlen, htold⟩ := h.in_order (fun _ => answer) hturn hidle
  rw [htold]
  calc (List.zipWith (fun _ m => answer (Message.full m))
    (stretches.filterMap (completes frame?)) ms).flatten
      = (((stretches.filterMap (completes frame?)).zip ms).map fun q =>
        answer q.2.full).flatten := by
        rw [List.map_zip_eq_zipWith]
        rfl
    _ = ((((stretches.filterMap (completes frame?)).zip ms).map Prod.snd).map fun m =>
      answer m.full).flatten := by
        rw [List.map_map]
        rfl
    _ = ms.flatMap fun m => answer m.full := by
      rw [List.map_snd_zip (Nat.le_of_eq hlen.symm), List.flatMap_def]

theorem InTurn.frames {stretches : List (List T)} {bursts : List (List Bytes)}
    (h : InTurn frame? now stretches bursts) :
    stretches.flatten.filterMap frame? = bursts.flatten := by
  induction h with
  | nil => rfl
  | cons hfirst _ ih =>
      rw [List.flatten_cons, List.filterMap_append, hfirst.1, ih, List.flatten_cons]

/-- Whatever is lost, delayed or repeated: only messages that were sent are told. -/
theorem Observes.sent {ms : List Message} (h : Observes frame? now r turns hist r')
    (hfed : Fed ms r) (hapart : Apart ms)
    (hframes : ∀ t ∈ turns, ∀ frame, frame? t = some frame → ∃ m ∈ ms, frame ∈ m.frames) :
    ∀ x ∈ told answer hist, ∃ t ∈ turns, ∃ m ∈ ms, x ∈ answer t m.full := by
  intro x hx
  obtain ⟨p, hp, hxp⟩ := List.mem_flatMap.mp hx
  cases hout : p.2.out with
  | none =>
      rw [hout] at hxp
      cases hxp
  | some full =>
      rw [hout] at hxp
      have hsent : ∀ a ∈ hist.map Prod.snd, ∃ m ∈ ms, a.frame ∈ m.frames := by
        intro a ha
        obtain ⟨q, hq, rfl⟩ := List.mem_map.mp ha
        exact hframes q.1 (h.mem_turns hq) q.2.frame (h.frames q hq).1
      obtain ⟨m, hm, rfl⟩ :=
        receives_sent hfed hapart h.receives hsent p.2 (List.mem_map_of_mem hp) full hout
      exact ⟨p.1, h.mem_turns hp, m, hm, hxp⟩

end Turns

end SrtVpn.UdpChannel
