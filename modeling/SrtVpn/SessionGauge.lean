import SrtVpn.Counters
import SrtVpn.Dispatch
import SrtVpn.Runs

namespace SrtVpn.SessionGauge

open Counters Dispatch Runs Tables

variable {α : Type}

/-- What is done under the lock of a registry between its two changes, that of the map and that of
the gauge. -/
inductive Lock
  | free
  | adding
  | clearing (n : Nat)
  deriving DecidableEq, Repr

structure Registry (α : Type) where
  map : SessionRegistry α
  lock : Lock

/-- The registries of all connections, the one gauge `active_sessions`, and the calls of `remove`
that have taken an entry out and still have to count it off. -/
structure Metrics (α : Type) where
  registries : List (Registry α)
  gauge : UInt64
  pending : Nat

inductive Event
  | create
  | allocate (r : Nat)
  | registerSpecific (r : Nat) (sid : UInt16)
  | count (r : Nat)
  | remove (r : Nat) (sid : UInt16)
  | countOff
  | closeAll (r : Nat)
  | countOffAll (r : Nat)
  deriving DecidableEq, Repr

def start : Metrics α := ⟨[], 0, 0⟩

def Metrics.put (s : Metrics α) (r : Nat) (map : SessionRegistry α) (lock : Lock) : Metrics α :=
  { s with registries := s.registries.set r ⟨map, lock⟩ }

def act (s : Metrics α) : Event → Option (Metrics α)
  | .create => some { s with registries := s.registries ++ [⟨.new, .free⟩] }
  | .allocate r =>
      match s.registries[r]? with
      | some ⟨map, .free⟩ =>
          some (s.put r map.allocate.2 (if map.allocate.1.isSome then .adding else .free))
      | _ => none
  | .registerSpecific r sid =>
      match s.registries[r]? with
      | some ⟨map, .free⟩ =>
          some (s.put r (map.registerSpecific sid).2
            (if (map.registerSpecific sid).1.isSome then .adding else .free))
      | _ => none
  | .count r =>
      match s.registries[r]? with
      | some ⟨map, .adding⟩ => some { s.put r map .free with gauge := fetchAdd s.gauge 1 }
      | _ => none
  | .remove r sid =>
      match s.registries[r]? with
      | some ⟨map, .free⟩ => some { s.put r (map.remove sid) .free with
          pending := if (find map.sessions sid).isSome then s.pending + 1 else s.pending }
      | _ => none
  | .countOff =>
      if 0 < s.pending then some { s with gauge := fetchSub s.gauge 1, pending := s.pending - 1 }
      else none
  | .closeAll r =>
      match s.registries[r]? with
      | some ⟨map, .free⟩ => some (s.put r map.closeAll.2 (.clearing map.closeAll.1))
      | _ => none
  | .countOffAll r =>
      match s.registries[r]? with
      | some ⟨map, .clearing n⟩ =>
          some { s.put r map .free with gauge := fetchSub s.gauge (UInt64.ofNat n) }
      | _ => none

def Registry.size (reg : Registry α) : Nat := Tables.size reg.map.sessions

/-- The entry just made, which the gauge does not count yet. -/
def Registry.adding (reg : Registry α) : Nat :=
  match reg.lock with
  | .adding => 1
  | _ => 0

/-- The entries just thrown away, which the gauge still counts. -/
def Registry.clearing (reg : Registry α) : Nat :=
  match reg.lock with
  | .clearing n => n
  | _ => 0

def Metrics.total (s : Metrics α) : Nat := tally Registry.size s.registries

def Metrics.adding (s : Metrics α) : Nat := tally Registry.adding s.registries

def Metrics.clearing (s : Metrics α) : Nat := tally Registry.clearing s.registries

/-- Every entry of a map has its place in memory, which `clear` does not give back, and so has every
call. -/
def Metrics.Fits (s : Metrics α) : Prop := s.total + s.clearing + s.pending < 2 ^ 64

instance (s : Metrics α) : Decidable s.Fits := inferInstanceAs (Decidable (_ < _))

def step (s : Metrics α) (ev : Event) : Option (Metrics α) := (act s ev).filter fun t => t.Fits

section Size

variable {reg : SessionRegistry α} {sid : UInt16}

theorem size_allocate (reg : SessionRegistry α) : Tables.size reg.allocate.2.sessions =
    Tables.size reg.sessions + if reg.allocate.1.isSome then 1 else 0 := by
  cases h : reg.allocate with
  | mk res reg' =>
      cases res with
      | none => simp [(SessionRegistry.allocate_eq_none h).1]
      | some p =>
          obtain ⟨sid, c⟩ := p
          obtain ⟨hfree, hinsert, -⟩ := SessionRegistry.allocate_eq_some h
          simp [hinsert, size_insert hfree]

theorem size_registerSpecific (reg : SessionRegistry α) (sid : UInt16) :
    Tables.size (reg.registerSpecific sid).2.sessions =
      Tables.size reg.sessions + if (reg.registerSpecific sid).1.isSome then 1 else 0 := by
  rw [SessionRegistry.registerSpecific]
  split
  · rfl
  · split
    · rfl
    next hfree => exact size_insert (by simpa using hfree) _

theorem size_remove (reg : SessionRegistry α) (sid : UInt16) :
    Tables.size (reg.remove sid).sessions + (if (find reg.sessions sid).isSome then 1 else 0) =
      Tables.size reg.sessions := by
  rw [SessionRegistry.remove]
  cases h : find reg.sessions sid with
  | none => rfl
  | some c => exact size_erase h

end Size

/-- Nothing is counted twice or forgotten: the gauge is short of the entries just made, and ahead by
those that went. -/
structure Gauged (s : Metrics α) : Prop where
  balance : s.gauge.toNat + s.adding = s.total + s.pending + s.clearing
  entered : ∀ reg ∈ s.registries, reg.adding ≤ reg.size
  fits : s.Fits

section Step

variable {s t : Metrics α} {r : Nat} {reg reg' : Registry α}

theorem gauged_start : Gauged (start : Metrics α) := ⟨rfl, by simp [start], Nat.two_pow_pos 64⟩

theorem Gauged.set (hs : Gauged s) (hreg : s.registries[r]? = some reg)
    (hset : t.registries = s.registries.set r reg') (hentered : reg'.adding ≤ reg'.size)
    (hfits : t.Fits)
    (hbalance : t.gauge.toNat + reg'.adding + (reg.size + s.pending + reg.clearing) =
      s.gauge.toNat + reg.adding + (reg'.size + t.pending + reg'.clearing)) : Gauged t := by
  refine ⟨?_, ?_, hfits⟩
  · have hsize := tally_set (f := Registry.size) hreg reg'
    have hadding := tally_set (f := Registry.adding) hreg reg'
    have hclearing := tally_set (f := Registry.clearing) hreg reg'
    have hs := hs.balance
    rw [Metrics.adding, Metrics.total, Metrics.clearing] at hs ⊢
    rw [hset]
    omega
  · rw [hset]
    intro x hx
    rcases List.mem_or_eq_of_mem_set hx with hx | rfl
    · exact hs.entered x hx
    · exact hentered

theorem Gauged.covers (hs : Gauged s) : s.pending + s.clearing ≤ s.gauge.toNat := by
  have hle : s.adding ≤ s.total := tally_mono hs.entered
  have hbalance := hs.balance
  omega

/-- What an event takes off the gauge. -/
def decrement (s : Metrics α) : Event → Nat
  | .countOff => 1
  | .countOffAll r => (s.registries[r]?.map Registry.clearing).getD 0
  | _ => 0

theorem Gauged.decrement_le (hs : Gauged s) {ev : Event} (h : act s ev = some t) :
    decrement s ev ≤ s.gauge.toNat := by
  have hcovers := hs.covers
  cases ev with
  | countOff =>
      obtain ⟨hpos, -⟩ := Option.ite_some_none_eq_some.mp h
      exact Nat.le_trans hpos (Nat.le_trans (Nat.le_add_right _ _) hcovers)
  | countOffAll r =>
      rw [decrement]
      cases hreg : s.registries[r]? with
      | none => exact Nat.zero_le _
      | some reg =>
          have hle : reg.clearing ≤ s.clearing := le_tally (List.mem_of_getElem? hreg)
          exact Nat.le_trans hle (Nat.le_trans (Nat.le_add_left _ _) hcovers)
  | create | allocate r | registerSpecific r sid | count r | remove r sid | closeAll r =>
      exact Nat.zero_le _

theorem Gauged.enter (hs : Gauged s) {map map' : SessionRegistry α} {added : Bool}
    (hreg : s.registries[r]? = some ⟨map, .free⟩)
    (hsize : Tables.size map'.sessions = Tables.size map.sessions + if added then 1 else 0)
    (hfits : (s.put r map' (if added then .adding else .free)).Fits) :
    Gauged (s.put r map' (if added then .adding else .free)) := by
  apply hs.set hreg rfl
  · cases added <;> simp [Registry.adding, Registry.size, hsize]
  · exact hfits
  · cases added with
    | true =>
        simp only [Registry.adding, Registry.size, Registry.clearing, Metrics.put, hsize, if_true]
        omega
    | false => simp [Registry.adding, Registry.size, Registry.clearing, Metrics.put, hsize]

theorem Gauged.act (hs : Gauged s) (ev : Event) (h : act s ev = some t) (hfits : t.Fits) :
    Gauged t := by
  have hcovers := hs.covers
  have hbalance := hs.balance
  cases ev with
  | create =>
      obtain rfl := Option.some.inj h
      refine ⟨?_, ?_, hfits⟩
      · rw [Metrics.adding, Metrics.total, Metrics.clearing] at hbalance ⊢
        rw [tally_concat, tally_concat, tally_concat]
        exact hbalance
      · intro reg hreg
        rcases List.mem_append.mp hreg with hreg | hreg
        · exact hs.entered reg hreg
        · obtain rfl := List.mem_singleton.mp hreg
          exact Nat.zero_le _
  | allocate r =>
      simp only [SessionGauge.act] at h
      split at h
      next map hreg =>
        obtain rfl := Option.some.inj h
        exact hs.enter hreg (size_allocate map) hfits
      · cases h
  | registerSpecific r sid =>
      simp only [SessionGauge.act] at h
      split at h
      next map hreg =>
        obtain rfl := Option.some.inj h
        exact hs.enter hreg (size_registerSpecific map sid) hfits
      · cases h
  | count r =>
      simp only [SessionGauge.act] at h
      split at h
      next map hreg =>
        obtain rfl := Option.some.inj h
        have hone : 1 ≤ s.adding := le_tally (f := Registry.adding) (List.mem_of_getElem? hreg)
        have hroom := hs.fits
        rw [Metrics.Fits] at hroom
        have hadd := toNat_fetchAdd_one (c := s.gauge) rfl (by omega)
        apply hs.set hreg rfl
        · exact Nat.zero_le _
        · exact hfits
        · simp only [hadd, Registry.adding, Registry.clearing, Registry.size, Metrics.put]
      · cases h
  | remove r sid =>
      simp only [SessionGauge.act] at h
      split at h
      next map hreg =>
        obtain rfl := Option.some.inj h
        have hsize := size_remove map sid
        apply hs.set hreg rfl
        · exact Nat.zero_le _
        · exact hfits
        · simp only [Registry.adding, Registry.clearing, Registry.size, Metrics.put]
          split at hsize
          next hfound =>
            rw [if_pos hfound]
            omega
          next hmissing =>
            rw [if_neg hmissing]
            omega
      · cases h
  | countOff =>
      obtain ⟨hpos, rfl⟩ := Option.ite_some_none_eq_some.mp h
      have hsub : (fetchSub s.gauge 1).toNat = s.gauge.toNat - 1 := by
        apply toNat_fetchSub
        exact (Nat.sub_add_cancel
          (Nat.le_trans hpos (Nat.le_trans (Nat.le_add_right _ _) hcovers))).symm
      refine ⟨?_, hs.entered, hfits⟩
      change (fetchSub s.gauge 1).toNat + s.adding = s.total + (s.pending - 1) + s.clearing
      omega
  | closeAll r =>
      simp only [SessionGauge.act] at h
      split at h
      next map hreg =>
        obtain rfl := Option.some.inj h
        apply hs.set hreg rfl
        · exact Nat.zero_le _
        · exact hfits
        · simp only [Registry.adding, Registry.clearing, Registry.size, Metrics.put,
            SessionRegistry.closeAll]
          have hempty : Tables.size (∅ : Table UInt16 Nat) = 0 := rfl
          omega
      · cases h
  | countOffAll r =>
      simp only [SessionGauge.act] at h
      split at h
      next map n hreg =>
        obtain rfl := Option.some.inj h
        have hn : n ≤ s.clearing := le_tally (f := Registry.clearing) (List.mem_of_getElem? hreg)
        have hofNat : (UInt64.ofNat n).toNat = n := by
          have hlt := s.gauge.toNat_lt
          exact UInt64.toNat_ofNat_of_lt (show n < 2 ^ 64 by omega)
        have hsub : (fetchSub s.gauge (UInt64.ofNat n)).toNat = s.gauge.toNat - n := by
          apply toNat_fetchSub
          rw [hofNat]
          exact (Nat.sub_add_cancel (by omega)).symm
        apply hs.set hreg rfl
        · exact Nat.zero_le _
        · exact hfits
        · simp only [hsub, Registry.adding, Registry.clearing, Registry.size, Metrics.put]
          omega
      · cases h

theorem Gauged.step (hs : Gauged s) {ev : Event} (h : step s ev = some t) : Gauged t := by
  obtain ⟨hact, hfits⟩ := Option.filter_eq_some_iff.mp h
  exact hs.act ev hact (of_decide_eq_true hfits)

end Step

/-- In every state of every run, the gauge stands for the entries of all registries and the calls of
`remove` that still have to count, once the operations that hold a lock have counted too; and
nothing is taken off that it does not have. -/
theorem gauge_never_drifts (events : List Event) :
    Throughout step (fun s : Metrics α => s.gauge.toNat + s.adding =
      s.total + s.pending + s.clearing ∧
      ((∀ reg ∈ s.registries, reg.lock = .free) → s.gauge.toNat = s.total + s.pending) ∧
      ((∀ reg ∈ s.registries, reg.lock = .free) → s.pending = 0 → s.gauge.toNat = s.total)) start
        events ∧
    EachStep step (fun (s : Metrics α) ev => decrement s ev ≤ s.gauge.toNat) start events := by
  have hgauged : Throughout step Gauged (start : Metrics α) events :=
    throughout_of_step gauged_start fun _ _ _ hs h => hs.step h
  constructor
  · refine hgauged.mono ?_
    intro s hs
    have hfree : (∀ reg ∈ s.registries, reg.lock = .free) →
        s.gauge.toNat = s.total + s.pending := by
      intro hlocks
      have hadding : s.adding = tally (fun _ => 0) s.registries :=
        tally_congr fun reg hreg => by rw [Registry.adding, hlocks reg hreg]
      have hclearing : s.clearing = tally (fun _ => 0) s.registries :=
        tally_congr fun reg hreg => by rw [Registry.clearing, hlocks reg hreg]
      have hbalance := hs.balance
      omega
    refine ⟨hs.balance, hfree, ?_⟩
    intro hlocks hnone
    rw [hfree hlocks, hnone]
    rfl
  · intro past ev s t hinit hs hstep
    have hprefix : past <+: events := (List.prefix_append past [ev]).trans hinit
    exact (hgauged past hprefix s hs).decrement_le (Option.filter_eq_some_iff.mp hstep).1

end SrtVpn.SessionGauge
