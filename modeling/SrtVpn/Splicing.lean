import SrtVpn.Reassembly
import SrtVpn.Runs

namespace SrtVpn.Splicing

open BigEndian Tables Chunks Utf8 Wire UdpFrames Reassembly

variable {β γ : Type}

/-- A datagram that has to be fragmented. A SOCKS5 domain has at most 255 bytes, which lossy
decoding can turn into 765. -/
structure Datagram where
  host : Bytes
  port : UInt16
  payload : Bytes
  valid : Valid host
  host_le : host.length ≤ 765
  payload_le : payload.length ≤ 65535
  large : frameDataMax < payload.length + ((encodeUdpAddrHeaderHost host port).length + 5)

namespace Datagram

variable (d : Datagram)

def header : Bytes := encodeUdpAddrHeaderHost d.host d.port

def target : Target := (d.host, d.port)

def frames : List Bytes := splitUdpFrames d.header d.payload

def count : Nat := divCeil d.payload.length (perPart d.header)

def chunk (k : Nat) : Bytes := (d.payload.drop (k * perPart d.header)).take (perPart d.header)

theorem one_lt_count : 1 < d.count := (length_split d.host_le d.large).2

theorem count_le : d.count ≤ 255 := by
  have hle := UdpFrames.count_le (length_header_le d.port d.host_le) d.payload_le
  exact Nat.le_trans hle (by decide)

theorem getElem?_frames (k : Nat) :
    d.frames[k]? = if k < d.count then some (fragment d.header d.payload d.count k) else none := by
  have hsplit : d.frames = (List.range d.count).map (fragment d.header d.payload d.count) :=
    (length_split d.host_le d.large).1
  rw [hsplit, List.getElem?_map]
  split
  next hk => rw [List.getElem?_range hk, Option.map_some]
  next hk => rw [List.getElem?_eq_none (by simpa using hk), Option.map_none]

theorem fragment_eq (k : Nat) : ∃ l₀ l₁, fragment d.header d.payload d.count k =
    d.header ++ udpFragMark :: l₀ :: l₁ :: UInt8.ofNat k :: UInt8.ofNat d.count :: d.chunk k ∧
      ofBytes [l₀, l₁] = d.payload.length := by
  have hle := d.payload_le
  have hlen := ofBytes_toBytes 2 (show d.payload.length < 256 ^ 2 by omega)
  simp only [toBytes] at hlen
  exact ⟨_, _, by simp [fragment, toBytes, chunk], hlen⟩

theorem parseFrame_fragment {k : Nat} (hhost : d.host.length ≤ 255) (hk : k < d.count) :
    parseFrame (fragment d.header d.payload d.count k) =
      .fragment ⟨d.target, d.payload.length, k, d.count, d.chunk k⟩ := by
  obtain ⟨l₀, l₁, heq, hlen⟩ := d.fragment_eq k
  have hcount := d.count_le
  have hlarge := d.large
  have hheader := length_header d.host d.port
  have hle := d.payload_le
  have hidx : (UInt8.ofNat k).toNat = k := by rw [UInt8.toNat_ofNat', Nat.mod_eq_of_lt (by omega)]
  have htotal : (UInt8.ofNat d.count).toNat = d.count := by
    rw [UInt8.toNat_ofNat', Nat.mod_eq_of_lt (by omega)]
  rw [heq, header, parseFrame, parseUdpAddrHeader_encode d.host d.port _ hhost d.valid]
  simp only [ne_eq, not_true, if_false, hidx, htotal, hlen]
  rw [if_neg (by omega), if_neg (by rw [frameDataMax] at hlarge; omega)]
  rfl

theorem parseFrame_long {k : Nat} (hhost : 255 < d.host.length) :
    parseFrame (fragment d.header d.payload d.count k) = .whole := by
  obtain ⟨l₀, l₁, heq, -⟩ := d.fragment_eq k
  have hn : (UInt8.ofNat d.host.length).toNat = d.host.length % 256 := UInt8.toNat_ofNat'
  have hmod := Nat.mod_lt d.host.length (show 0 < 256 by decide)
  have hdiv := Nat.div_add_mod d.host.length 256
  have hlt : d.host.length % 256 + 2 < d.host.length := by omega
  have hdrop : (d.host ++ (toBytes 2 d.port.toNat ++ udpFragMark :: l₀ :: l₁ :: UInt8.ofNat k ::
      UInt8.ofNat d.count :: d.chunk k)).drop (d.host.length % 256 + 2) =
      d.host[d.host.length % 256 + 2] ::
        (d.host.drop (d.host.length % 256 + 3) ++ (toBytes 2 d.port.toNat ++
        udpFragMark :: l₀ :: l₁ :: UInt8.ofNat k :: UInt8.ofNat d.count :: d.chunk k)) := by
    rw [List.drop_append_of_le_length (by omega), List.drop_eq_getElem_cons hlt, List.cons_append]
  have hne : d.host[d.host.length % 256 + 2] ≠ udpFragMark := by
    intro h
    have hmem := List.getElem_mem hlt
    rw [h] at hmem
    exact ff_notMem_of_valid d.valid hmem
  rw [heq]
  simp only [header, encodeUdpAddrHeaderHost, parseFrame, List.cons_append, List.append_assoc,
    parseUdpAddrHeader, hn]
  rw [if_neg (by simp; omega), if_neg (by simp; omega), hdrop]
  exact if_pos hne

end Datagram

section Erasure

variable (g : β → γ)

def mapState (st : ReasmState β) : ReasmState γ :=
  ⟨st.totalLen, st.totalParts, st.parts.map (Option.map g), st.received, st.addrHeader⟩

def mapOutput : Output β → Output γ
  | .nothing => .nothing
  | .whole => .whole
  | .joined header parts => .joined header (parts.map g)

/-- Two reassemblers that differ in the labels of their parts only. -/
structure Erases (t : UdpReassembler β) (r : UdpReassembler γ) : Prop where
  pending : ∀ key, (find t.pending key).map (mapState g) = find r.pending key
  createdAt : t.createdAt = r.createdAt

variable {g} {t : UdpReassembler β} {r : UdpReassembler γ}

theorem Erases.group_eq (h : Erases g t r) (f : Fragment Bytes) :
    groupFor r.pending f = mapState g (groupFor t.pending f) := by
  have hfresh : (freshGroup f : ReasmState γ) = mapState g (freshGroup f) := by
    simp [freshGroup, mapState]
  simp only [groupFor, ← h.pending]
  cases find t.pending f.target with
  | none => simp [freshGroup, mapState]
  | some st =>
      have hst : (mapState g st).totalLen = st.totalLen ∧
          (mapState g st).totalParts = st.totalParts :=
        ⟨rfl, rfl⟩
      simp only [Option.map_some, Option.getD_some, hst, hfresh]
      split <;> rfl

theorem storePart_map (st : ReasmState β) (f : Fragment Bytes) (tag : Bytes → β) (header : Bytes) :
    storePart (mapState g st) { f with part := g (tag f.part) } header =
      mapState g (storePart st { f with part := tag f.part } header) := by
  have hget : (mapState g st).parts[f.idx]? = st.parts[f.idx]?.map (Option.map g) := by
    simp [mapState]
  by_cases hnone : st.parts[f.idx]? = some none
  · rw [storePart_empty header (by simp [hget, hnone]), storePart_empty header hnone]
    simp [mapState, List.map_set]
  · have hnone' : (mapState g st).parts[f.idx]? ≠ some none := by
      rw [hget]
      cases hp : st.parts[f.idx]? with
      | none => simp
      | some p =>
          cases p with
          | none => exact absurd hp hnone
          | some p => simp
    rw [storePart_filled header hnone', storePart_filled header hnone]
    rfl

theorem mapM_map (parts : List (Option β)) :
    (parts.map (Option.map g)).mapM id = (parts.mapM id).map (List.map g) := by
  induction parts with
  | nil => rfl
  | cons p parts ih =>
      cases p with
      | none => rfl
      | some p =>
          rw [List.map_cons, List.mapM_cons, List.mapM_cons, ih]
          cases parts.mapM id <;> rfl

theorem Erases.finish_eq (h : Erases g t r) (now : Nat) (target : Target) (total : Nat)
    (st : ReasmState β) :
    (finish r now target total (mapState g st)).1 = mapOutput g (finish t now target total st).1 ∧
      Erases g (finish t now target total st).2 (finish r now target total (mapState g st)).2 := by
  have hcreated :
      (if (find r.pending target).isNone then r.createdAt.insert target now else r.createdAt) =
      if (find t.pending target).isNone then t.createdAt.insert target now else t.createdAt := by
    rw [← h.pending, h.createdAt]
    simp
  have hinsert : ∀ key, (find (t.pending.insert target st) key).map (mapState g) =
      find (r.pending.insert target (mapState g st)) key := by
    intro key
    rw [find_insert, find_insert]
    split
    · rfl
    · exact h.pending key
  have herase : ∀ key, (find (t.pending.erase target) key).map (mapState g) =
      find (r.pending.erase target) key := by
    intro key
    rw [find_erase, find_erase]
    split
    · rfl
    · exact h.pending key
  have hparts : (mapState g st).parts.mapM id = (st.parts.mapM id).map (List.map g) :=
    mapM_map st.parts
  have hreceived : (mapState g st).received = st.received := rfl
  simp only [finish, hcreated, hparts, hreceived]
  split
  · cases st.parts.mapM id with
    | none => exact ⟨rfl, hinsert, rfl⟩
    | some parts => exact ⟨rfl, herase, rfl⟩
  · exact ⟨rfl, hinsert, rfl⟩

theorem Erases.push_rel (h : Erases g t r) (tag : Bytes → β) (now : Nat) (frame : Bytes) :
    Option.Rel (fun a b => mapOutput g a.1 = b.1 ∧ Erases g a.2 b.2) (pushWith tag now t frame)
      (pushWith (g ∘ tag) now r frame) := by
  rw [pushWith, pushWith]
  cases parseFrame frame with
  | invalid => exact .some ⟨rfl, h⟩
  | whole => exact .some ⟨rfl, h⟩
  | fragment f =>
      simp only [h.group_eq f]
      have hlen : (mapState g (groupFor t.pending f)).parts.length =
          (groupFor t.pending f).parts.length := by
        simp [mapState]
      rw [hlen]
      split
      · exact .none
      · obtain ⟨hout, hnext⟩ := h.finish_eq now f.target f.total
          (storePart (groupFor t.pending f) { f with part := tag f.part }
            (frame.take (1 + f.target.1.length + 2)))
        rw [← storePart_map] at hout hnext
        exact .some ⟨hout.symm, hnext⟩

end Erasure

/-- What reaches a reassembler: fragment `k` of datagram `i`, in any order and number, and the
clean-up of old groups. -/
inductive Event
  | deliver (now i k : Nat)
  | cleanup (now : Nat)

def frameOf (ds : List Datagram) (i k : Nat) : Option Bytes := ds[i]?.bind fun d => d.frames[k]?

def arrive (tag : Nat → Bytes → β) (ds : List Datagram) (r : UdpReassembler β) :
    Event → Option (UdpReassembler β)
  | .deliver now i k => (frameOf ds i k).bind fun frame =>
      (pushWith (tag i) now r frame).map Prod.snd
  | .cleanup now => some (cleanupExpired now r)

def afterAll (tag : Nat → Bytes → β) (ds : List Datagram) (evs : List Event) :
    Option (UdpReassembler β) :=
  evs.foldlM (arrive tag ds) .new

def sources (i : Nat) : Output (Nat × Bytes) → List Nat
  | .nothing => []
  | .whole => [i]
  | .joined _ parts => parts.map Prod.fst

/-- Whatever a push returns, after any events, is one datagram, made of its own fragments. -/
def Unspliced (ds : List Datagram) : Prop :=
  ∀ evs now i k frame r full r', afterAll (fun _ part => part) ds evs = some r →
    frameOf ds i k = some frame → push now r frame = some (some full, r') →
      ∃ j d, ds[j]? = some d ∧ full = d.header ++ d.payload ∧
      ∀ t o t', afterAll Prod.mk ds evs = some t → pushWith (Prod.mk i) now t frame = some (o, t') →
        ∀ s ∈ sources i o, s = j

section Runs

variable {ds : List Datagram}

theorem Erases.cleanup {g : β → γ} {t : UdpReassembler β} {r : UdpReassembler γ} (h : Erases g t r)
    (now : Nat) : Erases g (cleanupExpired now t) (cleanupExpired now r) := by
  constructor
  · intro key
    simp only [cleanupExpired, h.createdAt, find_foldl_erase]
    split
    · rfl
    · exact h.pending key
  · simp only [cleanupExpired, h.createdAt]

theorem Erases.arrive_rel {t : UdpReassembler (Nat × Bytes)} {r : UdpReassembler Bytes}
    (h : Erases Prod.snd t r) (e : Event) :
    Option.Rel (Erases Prod.snd) (arrive Prod.mk ds t e) (arrive (fun _ part => part) ds r e) := by
  cases e with
  | cleanup now => exact .some (h.cleanup now)
  | deliver now i k =>
      rw [arrive, arrive]
      cases frameOf ds i k with
      | none => exact .none
      | some frame =>
          have hrel := h.push_rel (Prod.mk i) now frame
          change Option.Rel _ _ ((pushWith (fun part => part) now r frame).map Prod.snd)
          change Option.Rel _ _ (pushWith (fun part => part) now r frame) at hrel
          rw [Option.bind_some]
          generalize pushWith (Prod.mk i) now t frame = a,
              pushWith (fun part => part) now r frame = b at hrel
          cases hrel with
          | none => exact .none
          | some hab => exact .some hab.2

theorem afterAll_append (tag : Nat → Bytes → β) (evs : List Event) (e : Event) :
    afterAll tag ds (evs ++ [e]) = (afterAll tag ds evs).bind (arrive tag ds · e) :=
  Runs.exec_append_singleton (arrive tag ds) .new evs e

theorem afterAll_rel (ds : List Datagram) (evs : List Event) :
    Option.Rel (Erases Prod.snd) (afterAll Prod.mk ds evs)
    (afterAll (fun _ part => part) ds evs) := by
  induction evs using List.reverseRecOn with
  | nil => exact .some ⟨fun key => by simp [UdpReassembler.new], rfl⟩
  | append_singleton evs e ih =>
      rw [afterAll_append, afterAll_append]
      generalize afterAll Prod.mk ds evs = a, afterAll (fun _ part => part) ds evs = b at ih
      cases ih with
      | none => exact .none
      | some hab => exact hab.arrive_rel e

theorem rel_some_right {R : β → γ → Prop} {a : Option β} {c : γ} (h : Option.Rel R a (some c)) :
    ∃ b, a = some b ∧ R b c := by
  cases h with
  | some hab => exact ⟨_, rfl, hab⟩

theorem rel_some_left {R : β → γ → Prop} {b : β} {a : Option γ} (h : Option.Rel R (some b) a) :
    ∃ c, a = some c ∧ R b c := by
  cases h with
  | some hab => exact ⟨_, rfl, hab⟩

end Runs

section Sound

/-- A group that holds fragments of datagram `j` only, each in its place. -/
structure GroupOf (j : Nat) (d : Datagram) (st : ReasmState (Nat × Bytes)) : Prop where
  totalLen : st.totalLen = d.payload.length
  totalParts : st.totalParts = d.count
  length : st.parts.length = d.count
  parts : ∀ k p, st.parts[k]? = some (some p) → p = (j, d.chunk k)
  header : ∀ p, st.parts[0]? = some (some p) → st.addrHeader = d.header

def Grouped (ds : List Datagram) (t : UdpReassembler (Nat × Bytes)) : Prop :=
  ∀ key st, find t.pending key = some st → ∃ j d, ds[j]? = some d ∧ d.target = key ∧ GroupOf j d st

def Distinct (ds : List Datagram) : Prop :=
  ∀ (i j : Nat) (d e : Datagram), ds[i]? = some d → ds[j]? = some e → d.target = e.target →
    d.payload.length = e.payload.length → i = j

variable {ds : List Datagram} {i k : Nat} {d : Datagram}

def Datagram.toFragment (d : Datagram) (k : Nat) : Fragment Bytes :=
  ⟨d.target, d.payload.length, k, d.count, d.chunk k⟩

theorem groupOf_fresh (f : Fragment Bytes) (hf : f = d.toFragment k) :
    GroupOf i d (freshGroup f) := by
  subst hf
  have hnone (p : Nat × Bytes) (k' : Nat) (h : (List.replicate d.count none)[k']? = some (some p)) :
      False := by
    rw [List.getElem?_replicate] at h
    split at h <;> simp at h
  exact ⟨rfl, rfl, by simp [freshGroup, Datagram.toFragment], fun k' p h => (hnone p k' h).elim,
    fun p h => (hnone p 0 h).elim⟩

theorem groupOf_groupFor {t : UdpReassembler (Nat × Bytes)} (h : Grouped ds t) (hdist : Distinct ds)
    (hi : ds[i]? = some d) : GroupOf i d (groupFor t.pending (d.toFragment k)) := by
  rcases groupFor_cases t.pending (d.toFragment k) with hnew | ⟨st, hfind, hsame, hlen, -⟩
  · rw [hnew]
    exact groupOf_fresh (d.toFragment k) rfl
  · obtain ⟨j, e, hj, htarget, hgroup⟩ := h _ st hfind
    have hlen' : e.payload.length = d.payload.length := hgroup.totalLen.symm.trans hlen
    obtain rfl := hdist j i e d hj hi htarget hlen'
    rw [hi] at hj
    obtain rfl := Option.some.inj hj
    rw [hsame]
    exact hgroup

theorem GroupOf.store {st : ReasmState (Nat × Bytes)} (h : GroupOf i d st) :
    GroupOf i d (storePart st { d.toFragment k with part := (i, d.chunk k) } d.header) := by
  by_cases hnone : st.parts[k]? = some none
  · rw [storePart_empty d.header hnone]
    refine ⟨h.totalLen, h.totalParts, by simpa using h.length, fun k' p hp => ?_, fun p hp => ?_⟩
    · simp only [Datagram.toFragment, List.getElem?_set] at hp
      split at hp
      next heq =>
        split at hp
        · rw [← heq]
          simpa using hp.symm
        · simp at hp
      next => exact h.parts k' p hp
    · by_cases hz : k = 0
      · simp [Datagram.toFragment, hz]
      · simp only [Datagram.toFragment, List.getElem?_set, hz, if_false] at hp ⊢
        exact h.header p hp
  · rw [storePart_filled d.header hnone]
    refine ⟨h.totalLen, h.totalParts, h.length, h.parts, fun p hp => ?_⟩
    by_cases hz : k = 0
    · simp [Datagram.toFragment, hz]
    · simp only [Datagram.toFragment, hz, if_false]
      exact h.header p hp

theorem mapM_id_eq_some {parts : List (Option β)} {ps : List β} (h : parts.mapM id = some ps) :
    parts = ps.map some := by
  induction parts generalizing ps with
  | nil =>
      obtain rfl := Option.some.inj h
      rfl
  | cons p parts ih =>
      rw [List.mapM_cons] at h
      cases p with
      | none => simp at h
      | some p =>
          cases hm : parts.mapM id with
          | none => simp [hm] at h
          | some qs =>
              simp only [hm, id] at h
              obtain rfl := Option.some.inj h
              rw [ih hm, List.map_cons]

theorem GroupOf.complete {st : ReasmState (Nat × Bytes)} (h : GroupOf i d st)
    {ps : List (Nat × Bytes)} (hall : st.parts.mapM id = some ps) :
    ps = (List.range d.count).map (fun k => (i, d.chunk k)) ∧ st.addrHeader = d.header := by
  have hparts := mapM_id_eq_some hall
  have hlen : ps.length = d.count := by rw [← h.length, hparts, List.length_map]
  have hget : ∀ k, k < ps.length → ps[k]? = some (i, d.chunk k) := by
    intro k hk
    rw [List.getElem?_eq_getElem hk, h.parts k ps[k] (by simp [hparts, hk])]
  constructor
  · apply List.ext_getElem?
    intro k
    by_cases hk : k < ps.length
    · rw [hget k hk, List.getElem?_map, List.getElem?_range (hlen ▸ hk), Option.map_some]
    · rw [List.getElem?_eq_none (by omega), List.getElem?_eq_none (by simp; omega)]
  · have hone := d.one_lt_count
    have hzero : ps[0]? = some ps[0] := List.getElem?_eq_getElem (by omega)
    exact h.header ps[0] (by rw [hparts, List.getElem?_map, hzero, Option.map_some])

theorem Datagram.flatten_chunks (d : Datagram) :
    ((List.range d.count).map d.chunk).flatten = d.payload := by
  have hpos : 528 ≤ perPart d.header := perPart_pos d.port d.host_le
  have hwin := flatten_windows (perPart d.header) d.count d.payload
  refine hwin.trans (List.take_of_length_le ?_)
  exact le_divCeil_mul d.payload.length (by omega)

theorem frameOf_eq_some {frame : Bytes} (h : frameOf ds i k = some frame) :
    ∃ d, ds[i]? = some d ∧ k < d.count ∧ frame = fragment d.header d.payload d.count k := by
  obtain ⟨d, hd, hframe⟩ := Option.bind_eq_some_iff.mp h
  rw [d.getElem?_frames] at hframe
  split at hframe
  next hk => exact ⟨d, hd, hk, (Option.some.inj hframe).symm⟩
  next => simp at hframe

theorem take_fragment (d : Datagram) (k : Nat) :
    (fragment d.header d.payload d.count k).take (1 + d.target.1.length + 2) = d.header := by
  obtain ⟨l₀, l₁, heq, -⟩ := d.fragment_eq k
  have hlen : d.header.length = d.host.length + 3 := length_header d.host d.port
  rw [heq]
  apply List.take_left'
  simp only [hlen, Datagram.target]
  omega

theorem pushWith_fragment {t : UdpReassembler β} (tag : Bytes → β) (now : Nat)
    (hhost : d.host.length ≤ 255) (hk : k < d.count)
    (hroom : (groupFor t.pending (d.toFragment k)).parts.length = d.count) :
    pushWith tag now t (fragment d.header d.payload d.count k) =
      some (finish t now d.target d.count (storePart (groupFor t.pending (d.toFragment k))
        { d.toFragment k with part := tag (d.chunk k) } d.header)) := by
  have hlen := congrArg List.length (take_fragment d k)
  rw [List.length_take, Datagram.header, length_header d.host d.port] at hlen
  rw [pushWith, d.parseFrame_fragment hhost hk]
  simp only [take_fragment]
  apply if_neg
  rintro (⟨-, hshort⟩ | hparts)
  · simp only [Datagram.target] at hlen hshort
    rw [Datagram.header] at hshort
    omega
  · exact Nat.not_lt.mpr (hroom ▸ hparts) hk

theorem Grouped.insert {t : UdpReassembler (Nat × Bytes)} (h : Grouped ds t) (hi : ds[i]? = some d)
    {st : ReasmState (Nat × Bytes)} (hst : GroupOf i d st) (createdAt : Table Target Nat) :
    Grouped ds ⟨t.pending.insert d.target st, createdAt⟩ := by
  intro key st' hfind
  simp only [find_insert] at hfind
  split at hfind
  next hkey =>
    obtain rfl := Option.some.inj hfind
    exact ⟨i, d, hi, hkey.symm, hst⟩
  next => exact h key st' hfind

theorem Grouped.erase {t : UdpReassembler (Nat × Bytes)} (h : Grouped ds t) (target : Target)
    (createdAt : Table Target Nat) : Grouped ds ⟨t.pending.erase target, createdAt⟩ := by
  intro key st hfind
  simp only [find_erase] at hfind
  split at hfind
  · simp at hfind
  · exact h key st hfind

theorem Grouped.push {t t' : UdpReassembler (Nat × Bytes)} (h : Grouped ds t) (hdist : Distinct ds)
    (hshort : ∀ d ∈ ds, d.host.length ≤ 255) (hi : ds[i]? = some d) (hk : k < d.count) (now : Nat)
    {o : Output (Nat × Bytes)}
    (hpush : pushWith (Prod.mk i) now t (fragment d.header d.payload d.count k) = some (o, t')) :
    Grouped ds t' ∧
    (o = .nothing ∨ o = .joined d.header ((List.range d.count).map fun k => (i, d.chunk k))) := by
  have hgroup : GroupOf i d (groupFor t.pending (d.toFragment k)) := groupOf_groupFor h hdist hi
  rw [pushWith_fragment (Prod.mk i) now (hshort d (List.mem_of_getElem? hi)) hk
    hgroup.length] at hpush
  have hstored : GroupOf i d (storePart (groupFor t.pending (d.toFragment k))
      { d.toFragment k with part := (i, d.chunk k) } d.header) := hgroup.store
  have hfin := Option.some.inj hpush
  rw [finish] at hfin
  split at hfin
  · split at hfin
    next ps hall =>
      obtain ⟨rfl, rfl⟩ := Prod.mk.inj hfin
      obtain ⟨hps, hheader⟩ := hstored.complete hall
      refine ⟨h.erase _ _, Or.inr ?_⟩
      rw [hps]
      exact congrArg (fun a => Output.joined a _) hheader
    next =>
      obtain ⟨rfl, rfl⟩ := Prod.mk.inj hfin
      exact ⟨h.insert hi hstored _, Or.inl rfl⟩
  · obtain ⟨rfl, rfl⟩ := Prod.mk.inj hfin
    exact ⟨h.insert hi hstored _, Or.inl rfl⟩

theorem Grouped.cleanup {t : UdpReassembler (Nat × Bytes)} (h : Grouped ds t) (now : Nat) :
    Grouped ds (cleanupExpired now t) :=
  fun key st hst => h key st (find_cleanupExpired hst)

theorem grouped_afterAll (hdist : Distinct ds) (hshort : ∀ d ∈ ds, d.host.length ≤ 255)
    (evs : List Event) {t : UdpReassembler (Nat × Bytes)} (h : afterAll Prod.mk ds evs = some t) :
    Grouped ds t := by
  induction evs using List.reverseRecOn generalizing t with
  | nil =>
      obtain rfl := Option.some.inj h
      intro key st hfind
      simp [UdpReassembler.new] at hfind
  | append_singleton evs e ih =>
      rw [afterAll_append, Option.bind_eq_some_iff] at h
      obtain ⟨t', ht', he⟩ := h
      cases e with
      | cleanup now =>
          obtain rfl := Option.some.inj he
          exact (ih ht').cleanup now
      | deliver now i k =>
          obtain ⟨frame, hf, hpush⟩ := Option.bind_eq_some_iff.mp he
          obtain ⟨⟨o, t''⟩, hstep, rfl⟩ := Option.map_eq_some_iff.mp hpush
          obtain ⟨d, hd, hk, rfl⟩ := frameOf_eq_some hf
          exact ((ih ht').push hdist hshort hd hk now hstep).1

theorem unspliced_of_distinct (hshort : ∀ d ∈ ds, d.host.length ≤ 255) (hdist : Distinct ds) :
    Unspliced ds := by
  intro evs now i k frame r full r' hrun hframe hpush
  obtain ⟨d, hd, hk, rfl⟩ := frameOf_eq_some hframe
  obtain ⟨t, ht, hrel⟩ := rel_some_right (hrun ▸ afterAll_rel ds evs)
  obtain ⟨⟨o, r''⟩, hplain, hout⟩ := Option.map_eq_some_iff.mp hpush
  obtain ⟨⟨o', t'⟩, htagged, rfl, -⟩ := rel_some_right (hplain ▸ hrel.push_rel (Prod.mk i) now _)
  have hkind := ((grouped_afterAll hdist hshort evs ht).push hdist hshort hd hk now htagged).2
  refine ⟨i, d, hd, ?_, ?_⟩
  · rcases hkind with rfl | rfl
    · simp [mapOutput, Output.bytes] at hout
    · simp only [mapOutput, Output.bytes, Prod.mk.injEq, Option.some.injEq, List.map_map] at hout
      rw [← hout.1]
      exact congrArg (d.header ++ ·) d.flatten_chunks
  · intro t₁ o₁ t₁' ht₁ hpush₁ s hs
    rw [ht] at ht₁
    obtain rfl := Option.some.inj ht₁
    rw [htagged] at hpush₁
    obtain ⟨rfl, -⟩ := Prod.mk.inj (Option.some.inj hpush₁)
    rcases hkind with rfl | rfl
    · simp [sources] at hs
    · simp only [sources, List.map_map, List.mem_map] at hs
      obtain ⟨k', -, rfl⟩ := hs
      rfl

end Sound

section Complete

variable {ds : List Datagram} {i j : Nat} {d e : Datagram}

theorem frameOf_of_lt {k : Nat} (hi : ds[i]? = some d) (hk : k < d.count) :
    frameOf ds i k = some (fragment d.header d.payload d.count k) := by
  rw [frameOf, hi, Option.bind_some, d.getElem?_frames, if_pos hk]

theorem header_eq (htarget : d.target = e.target) : d.header = e.header := by
  obtain ⟨hhost, hport⟩ := Prod.mk.inj htarget
  rw [Datagram.header, Datagram.header, hhost, hport]

theorem count_eq (htarget : d.target = e.target) (hlen : d.payload.length = e.payload.length) :
    d.count = e.count := by
  rw [Datagram.count, Datagram.count, header_eq htarget, hlen]

def mixedPart (i j : Nat) (d e : Datagram) (m k : Nat) : Option (Nat × Bytes) :=
  if k = 0 then some (i, d.chunk 0) else if k ≤ m then some (j, e.chunk k) else none

def mixed (i j : Nat) (d e : Datagram) (m : Nat) : ReasmState (Nat × Bytes) :=
  ⟨d.payload.length, d.count, (List.range d.count).map (mixedPart i j d e m), m + 1, d.header⟩

theorem getElem?_mixed (m k : Nat) (hk : k < d.count) :
    (mixed i j d e m).parts[k]? = some (mixedPart i j d e m k) := by
  rw [mixed, List.getElem?_map, List.getElem?_range hk, Option.map_some]

theorem push_first (now : Nat) (hhost : d.host.length ≤ 255) :
    pushWith (Prod.mk i) now .new (fragment d.header d.payload d.count 0) =
      some (finish .new now d.target d.count (mixed i j d e 0)) := by
  have hone := d.one_lt_count
  have hgroup : groupFor (UdpReassembler.new : UdpReassembler (Nat × Bytes)).pending
      (d.toFragment 0) =
      freshGroup (d.toFragment 0) := by
    simp [groupFor, UdpReassembler.new, freshGroup]
  have hnone : (freshGroup (d.toFragment 0) : ReasmState (Nat × Bytes)).parts[0]? = some none := by
    simp only [freshGroup, Datagram.toFragment, List.getElem?_replicate]
    exact if_pos (by omega)
  have hstore : storePart (freshGroup (d.toFragment 0))
      { d.toFragment 0 with part := (i, d.chunk 0) } d.header =
      mixed i j d e 0 := by
    rw [storePart_empty d.header hnone]
    simp only [freshGroup, Datagram.toFragment, mixed, if_true, ReasmState.mk.injEq, true_and,
      and_true]
    apply List.ext_getElem?
    intro k
    rw [List.getElem?_set, List.getElem?_map, List.getElem?_replicate, List.length_replicate]
    by_cases hk : k < d.count
    · rw [List.getElem?_range hk, Option.map_some, mixedPart]
      by_cases hz : k = 0
      · simp [hz, show 0 < d.count by omega]
      · rw [if_neg (Ne.symm hz), if_pos hk, if_neg hz, if_neg (by omega)]
    · rw [if_neg (by omega), if_neg hk, List.getElem?_eq_none (by simpa using hk), Option.map_none]
  have hroom : (groupFor (UdpReassembler.new : UdpReassembler (Nat × Bytes)).pending
      (d.toFragment 0)).parts.length = d.count := by
    rw [hgroup, freshGroup, Datagram.toFragment, List.length_replicate]
  rw [pushWith_fragment (Prod.mk i) now hhost (by omega) hroom, hgroup, hstore]

theorem push_next {t : UdpReassembler (Nat × Bytes)} (now m : Nat) (hhost : e.host.length ≤ 255)
    (htarget : d.target = e.target) (hlen : d.payload.length = e.payload.length)
    (hfind : find t.pending d.target = some (mixed i j d e m)) (hm : m + 1 < d.count) :
    pushWith (Prod.mk j) now t (fragment e.header e.payload e.count (m + 1)) =
      some (finish t now d.target d.count (mixed i j d e (m + 1))) := by
  have hcount := count_eq htarget hlen
  have hgroup : groupFor t.pending (e.toFragment (m + 1)) = mixed i j d e m := by
    have htarget' : (e.toFragment (m + 1)).target = d.target := htarget.symm
    rw [groupFor, htarget', hfind, Option.getD_some]
    apply if_neg
    rintro (h | h)
    · exact h hlen
    · exact h hcount
  have hnone : (mixed i j d e m).parts[m + 1]? = some none := by
    rw [getElem?_mixed m (m + 1) hm, mixedPart, if_neg (by omega), if_neg (by omega)]
  have hstore : storePart (mixed i j d e m)
      { e.toFragment (m + 1) with part := (j, e.chunk (m + 1)) } e.header =
      mixed i j d e (m + 1) := by
    rw [storePart_empty e.header hnone]
    simp only [Datagram.toFragment, mixed, ReasmState.mk.injEq, true_and, Nat.succ_ne_zero,
      if_false, and_true]
    apply List.ext_getElem?
    intro k
    rw [List.getElem?_set, List.getElem?_map, List.getElem?_map, List.length_map, List.length_range]
    by_cases hk : k < d.count
    · rw [List.getElem?_range hk, Option.map_some, Option.map_some, mixedPart, mixedPart]
      by_cases heq : m + 1 = k
      · rw [if_pos heq, if_pos (by omega), if_neg (by omega), if_pos (by omega), heq]
      · rw [if_neg heq]
        split
        · rfl
        · have hiff : k ≤ m ↔ k ≤ m + 1 := by omega
          simp only [hiff]
    · rw [if_neg (by omega), List.getElem?_eq_none (by simpa using hk), Option.map_none,
        Option.map_none]
  have hroom : (groupFor t.pending (e.toFragment (m + 1))).parts.length = e.count := by
    rw [hgroup, mixed, List.length_map, List.length_range, hcount]
  rw [pushWith_fragment (Prod.mk j) now hhost (by omega) hroom, hgroup, hstore, hcount, htarget]

theorem finish_pending (t : UdpReassembler (Nat × Bytes)) (now m : Nat) (hm : m + 1 < d.count) :
    find (finish t now d.target d.count (mixed i j d e m)).2.pending d.target =
      some (mixed i j d e m) := by
  have hreceived : (mixed i j d e m).received ≠ d.count := Nat.ne_of_lt hm
  rw [finish, if_neg hreceived, find_insert, if_pos rfl]

theorem finish_mixed (t : UdpReassembler (Nat × Bytes)) (now : Nat) :
    ∃ m, m + 1 = d.count ∧ (finish t now d.target d.count (mixed i j d e m)).1 =
      .joined d.header ((List.range d.count).map fun k =>
        if k = 0 then (i, d.chunk 0) else (j, e.chunk k)) := by
  have hone := d.one_lt_count
  refine ⟨d.count - 1, by omega, ?_⟩
  have hparts : (mixed i j d e (d.count - 1)).parts =
      ((List.range d.count).map fun k => if k = 0 then (i, d.chunk 0) else (j, e.chunk k)).map
        some := by
    rw [mixed, List.map_map]
    apply List.map_congr_left
    intro k hk
    have hk' := List.mem_range.mp hk
    rw [mixedPart, Function.comp]
    split
    · rfl
    · rw [if_pos (by omega)]
  have hall : (mixed i j d e (d.count - 1)).parts.mapM id = some ((List.range d.count).map fun k =>
      if k = 0 then (i, d.chunk 0) else (j, e.chunk k)) := by
    rw [hparts]
    generalize (List.range d.count).map _ = ps
    induction ps with
    | nil => rfl
    | cons p ps ih =>
        rw [List.map_cons, List.mapM_cons, ih]
        rfl
  have hreceived : (mixed i j d e (d.count - 1)).received = d.count := Nat.sub_add_cancel (by omega)
  rw [finish, if_pos hreceived, hall]
  rfl

theorem afterAll_mixed (hi : ds[i]? = some d) (hj : ds[j]? = some e) (hd : d.host.length ≤ 255)
    (he : e.host.length ≤ 255) (htarget : d.target = e.target)
    (hlen : d.payload.length = e.payload.length) (m : Nat) (hm : m + 1 < d.count) :
    ∃ t, afterAll Prod.mk ds (.deliver 0 i 0 :: (List.range m).map fun k => .deliver 0 j (k + 1)) =
      some t ∧
      find t.pending d.target = some (mixed i j d e m) := by
  have hcount := count_eq htarget hlen
  induction m with
  | zero =>
      refine ⟨_, ?_, finish_pending .new 0 0 hm⟩
      rw [List.range_zero, List.map_nil, afterAll, List.foldlM_cons, arrive,
        frameOf_of_lt hi (by omega), Option.bind_some, push_first 0 hd]
      rfl
  | succ m ih =>
      obtain ⟨t, ht, hfind⟩ := ih (by omega)
      refine ⟨_, ?_, finish_pending t 0 (m + 1) hm⟩
      rw [List.range_succ, List.map_append, List.map_singleton, ← List.cons_append,
        afterAll_append, ht, Option.bind_some, arrive, frameOf_of_lt hj (by omega),
        Option.bind_some,
        push_next 0 m he htarget hlen hfind (by omega)]
      rfl

theorem distinct_of_unspliced (hshort : ∀ d ∈ ds, d.host.length ≤ 255) (h : Unspliced ds) :
    Distinct ds := by
  intro i j d e hi hj htarget hlen
  have hd := hshort d (List.mem_of_getElem? hi)
  have he := hshort e (List.mem_of_getElem? hj)
  have hcount := count_eq htarget hlen
  have hone := d.one_lt_count
  obtain ⟨m, hm⟩ : ∃ m, m + 2 = d.count := ⟨d.count - 2, by omega⟩
  obtain ⟨t, ht, hfind⟩ := afterAll_mixed hi hj hd he htarget hlen m (by omega)
  have hpush := push_next 0 m he htarget hlen hfind (by omega)
  obtain ⟨m', hm', hjoined⟩ := finish_mixed (i := i) (j := j) (d := d) (e := e) t 0
  obtain rfl : m' = m + 1 := by omega
  -- the same run without labels returns the mixture
  have hrun := afterAll_rel ds (.deliver 0 i 0 :: (List.range m).map fun k => .deliver 0 j (k + 1))
  rw [ht] at hrun
  obtain ⟨r, hr, herases⟩ := rel_some_left hrun
  have hplain := herases.push_rel (Prod.mk j) 0 (fragment e.header e.payload e.count (m + 1))
  rw [hpush] at hplain
  obtain ⟨⟨o, r'⟩, hpush', hout, -⟩ := rel_some_left hplain
  rw [hjoined] at hout
  have hfull : push 0 r (fragment e.header e.payload e.count (m + 1)) = 
      some (o.bytes (fragment e.header e.payload e.count (m + 1)), r') := by
    rw [push]
    exact (congrArg (Option.map _) hpush').trans rfl
  rw [show o = _ from hout.symm] at hfull
  obtain ⟨l, -, -, -, hsources⟩ := h _ 0 j (m + 1) _ r _ r' hr (frameOf_of_lt hj (by omega)) hfull
  have hall : ∀ s ∈ sources j (finish t 0 d.target d.count (mixed i j d e (m + 1))).1, s = l :=
    hsources t _ _ ht hpush
  rw [hjoined] at hall
  simp only [sources, List.map_map, List.mem_map, List.mem_range, Function.comp] at hall
  have hfirst := hall i ⟨0, by omega, rfl⟩
  have hsecond := hall j ⟨1, by omega, rfl⟩
  rw [hfirst, hsecond]

theorem length_chunk_le {k : Nat} (hk : 1 ≤ k) : (d.chunk k).length ≤ d.payload.length - 528 := by
  have hpos : 528 ≤ perPart d.header := perPart_pos d.port d.host_le
  have hmul : perPart d.header ≤ k * perPart d.header := Nat.le_mul_of_pos_left _ hk
  rw [Datagram.chunk, List.length_take, List.length_drop]
  omega

-- the last fragment, since a first fragment can happen to spell out its own datagram
theorem short_of_unspliced (h : Unspliced ds) : ∀ d ∈ ds, d.host.length ≤ 255 := by
  intro d hd
  by_contra hlong
  obtain ⟨i, hi⟩ := List.mem_iff_getElem?.mp hd
  have hone := d.one_lt_count
  obtain ⟨k, hk⟩ : ∃ k, k + 1 = d.count := ⟨d.count - 1, by omega⟩
  have hparse : parseFrame (fragment d.header d.payload d.count k) = .whole :=
    d.parseFrame_long (by omega)
  have hpush : push 0 .new (fragment d.header d.payload d.count k) =
      some (some (fragment d.header d.payload d.count k), .new) := by
    rw [push, pushWith, hparse]
    rfl
  have htagged : pushWith (Prod.mk i) 0 .new (fragment d.header d.payload d.count k) =
      some (.whole, .new) := by
    rw [pushWith, hparse]
  obtain ⟨j, e, hj, hfull, hsources⟩ :=
    h [] 0 i k _ .new _ .new rfl (frameOf_of_lt hi (by omega)) hpush
  obtain rfl := hsources .new _ _ rfl htagged i (by simp [sources])
  obtain rfl := Option.some.inj (hi.symm.trans hj)
  obtain ⟨l₀, l₁, heq, -⟩ := d.fragment_eq k
  rw [heq] at hfull
  have hcut := congrArg List.length (List.append_cancel_left hfull)
  have hchunk := length_chunk_le (d := d) (show 1 ≤ k by omega)
  have hlarge := d.large
  rw [frameDataMax, length_header] at hlarge
  have hle := d.host_le
  simp only [List.length_cons] at hcut
  omega

end Complete

/-- Reassembly never mixes datagrams exactly when every host fits its length byte and no two
datagrams of the session go to one target with one length. -/
theorem unspliced_iff_distinct (ds : List Datagram) :
    Unspliced ds ↔ (∀ d ∈ ds, d.host.length ≤ 255) ∧ Distinct ds :=
  ⟨fun h => ⟨short_of_unspliced h, distinct_of_unspliced (short_of_unspliced h) h⟩,
    fun h => unspliced_of_distinct h.1 h.2⟩

def filled (b : UInt8) : Datagram where
  host := [97]
  port := 53
  payload := List.replicate 1300 b
  valid := by decide
  host_le := by decide
  payload_le := by
    rw [List.length_replicate]
    decide
  large := by
    rw [length_header, List.length_replicate, frameDataMax]
    decide

/-- The second fragment of one datagram completes the first fragment of another: what comes out
starts with the bytes of the one and ends with those of the other. -/
theorem splices_equal_lengths :
    ((afterAll (fun _ part => part) [filled 1, filled 2] [.deliver 0 0 0]).bind fun r =>
        (frameOf [filled 1, filled 2] 1 1).bind fun frame => (push 0 r frame).map Prod.fst) =
      some (some ((filled 1).header ++ List.replicate 1292 1 ++ List.replicate 8 2)) ∧
    (∀ d ∈ [filled 1, filled 2],
      (filled 1).header ++ List.replicate 1292 1 ++ List.replicate 8 2 ≠ d.header ++ d.payload) ∧
    ¬ Unspliced [filled 1, filled 2] := by
  refine ⟨by decide +kernel, by decide +kernel, fun h => ?_⟩
  have hlen : (filled 1).payload.length = (filled 2).payload.length := by
    rw [filled, filled, List.length_replicate, List.length_replicate]
  exact absurd (distinct_of_unspliced (by decide) h 0 1 (filled 1) (filled 2) rfl rfl rfl hlen)
    (by decide)

end SrtVpn.Splicing
