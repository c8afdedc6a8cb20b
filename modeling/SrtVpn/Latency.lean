import Mathlib.Algebra.Order.Round
import Mathlib.Data.List.Induction
import SrtVpn.Rounding

namespace SrtVpn.Latency

open Rounding

/-- What the statistics of a socket can say. -/
inductive Sample
  | finite (ms : Rat)
  | infinite (negative : Bool)
  | nan
  deriving DecidableEq, Repr

def initMs : Int := 70

def minMs : Int := 60

def maxMs : Int := 800

def ttlMaxMs : Int := 1500

/-- The smoothed round-trip time, and the least time that a datagram may live. -/
structure RttTracker where
  ewmaMs : Int
  ttlMinMs : Int
  deriving DecidableEq, Repr

def Sample.valid? : Sample → Option Rat
  | .finite ms => if 0 < ms then some ms else none
  | _ => none

theorem valid_pos {s : Sample} {ms : Rat} (h : s.valid? = some ms) : 0 < ms := by
  cases s with
  | finite ms' =>
      obtain ⟨hpos, heq⟩ := Option.ite_some_none_eq_some.mp h
      rwa [← heq]
  | infinite negative => cases h
  | nan => cases h

/-- Seven eighths of the old value and one of the sample, as the machine computes them. -/
def average (old : Int) (ms : Rat) : Rat :=
  nearest binary64 (nearest binary64 (old * (1 - 1 / 8)) + nearest binary64 (ms / 8))

namespace RttTracker

def new (ttlMinMs : Int) : RttTracker := ⟨initMs, ttlMinMs⟩

def update (t : RttTracker) (s : Sample) : Int × RttTracker :=
  match s.valid? with
  | none => (t.ewmaMs, t)
  | some ms =>
      let next := max minMs (min (round (average t.ewmaMs ms)) maxMs)
      (next, { t with ewmaMs := next })

def adaptiveTtl (t : RttTracker) : Int := min (max (t.ewmaMs * 3) t.ttlMinMs) ttlMaxMs

def track (t : RttTracker) (samples : List Sample) : RttTracker :=
  samples.foldl (fun t s => (t.update s).2) t

end RttTracker

section Average

variable {old : Int} {ms : Rat}

theorem nearest_weighted (h : 0 < old) (h' : old ≤ maxMs) :
    nearest binary64 (old * (1 - 1 / 8)) = (7 * old : Int) / 8 := by
  have heq : (old : Rat) * (1 - 1 / 8) = (7 * old : Int) / 8 := by
    push_cast
    ring
  rw [heq]
  rw [maxMs] at h'
  exact nearest_eighth (by omega) (by omega)

theorem round_eighth (n : Int) : round ((n : Rat) / 8) = (n + 4) / 8 := by
  rw [round_eq, show (n : Rat) / 8 + 1 / 2 =
    ((n + 4 : Int) : Rat) / ((8 : Nat) : Rat) by push_cast; ring, Rat.floor_intCast_div_natCast]
  rfl

theorem round_le_round {x y : Rat} (h : x ≤ y) : round x ≤ round y := by
  rw [round_eq, round_eq]
  exact Int.floor_mono (add_le_add_left h _)

theorem le_round_average (h : 0 < old) (h' : old ≤ maxMs) {lo : Int} (hlo : 0 < lo)
    (hsmall : lo ≤ 2 ^ 20) (hms : lo ≤ ms) : (7 * old + lo + 4) / 8 ≤ round (average old ms) := by
  rw [maxMs] at h'
  have hexact : nearest binary64 ((7 * old + lo : Int) / 8) = (7 * old + lo : Int) / 8 :=
    nearest_eighth (by omega) (by omega)
  have hsample : (lo : Rat) / 8 ≤ nearest binary64 (ms / 8) := by
    rw [← nearest_eighth (n := lo) hlo (by omega)]
    apply nearest_mono (by decide)
    · exact div_pos (Int.cast_pos.mpr hlo) (by norm_num)
    · exact div_le_div_of_nonneg_right hms (by norm_num)
  rw [← round_eighth, average, nearest_weighted h h', ← hexact]
  apply round_le_round
  apply nearest_mono (by decide)
  · exact div_pos (Int.cast_pos.mpr (by omega)) (by norm_num)
  · push_cast
    linarith

theorem round_average_le (h : 0 < old) (h' : old ≤ maxMs) {hi : Int} (hsmall : hi ≤ 2 ^ 20)
    (hpos : 0 < ms) (hms : ms ≤ hi) : round (average old ms) ≤ (7 * old + hi + 4) / 8 := by
  rw [maxMs] at h'
  have hhi : 0 < hi := Int.cast_pos.mp (lt_of_lt_of_le hpos hms)
  have hexact : nearest binary64 ((7 * old + hi : Int) / 8) = (7 * old + hi : Int) / 8 :=
    nearest_eighth (by omega) (by omega)
  have hsample : nearest binary64 (ms / 8) ≤ (hi : Rat) / 8 := by
    rw [← nearest_eighth (n := hi) hhi (by omega)]
    apply nearest_mono (by decide)
    · exact div_pos hpos (by norm_num)
    · exact div_le_div_of_nonneg_right hms (by norm_num)
  rw [← round_eighth, average, nearest_weighted h h', ← hexact]
  apply round_le_round
  apply nearest_mono (by decide)
  · have hold : (0 : Rat) < (7 * old : Int) / 8 :=
      div_pos (Int.cast_pos.mpr (by omega)) (by norm_num)
    have hterm := nearest_nonneg binary64 (le_of_lt (div_pos hpos (show (0 : Rat) < 8 by norm_num)))
    linarith
  · push_cast
    linarith

end Average

structure Between (start : Int) (lo hi : Nat) (n : Nat) (e : Int) : Prop where
  above : min maxMs (min (lo - 3) (start + n)) ≤ e
  below : e ≤ max minMs (max (hi + 4) (start - n))
  clamped : minMs ≤ e ∧ e ≤ maxMs

section Steps

variable {start : Int} {lo hi n : Nat} {t : RttTracker} {s : Sample}

theorem between_start (h : minMs ≤ start ∧ start ≤ maxMs) : Between start lo hi 0 start := by
  refine ⟨?_, ?_, h⟩
  · change min 800 (min ((lo : Int) - 3) (start + (0 : Nat))) ≤ start
    omega
  · change start ≤ max 60 (max ((hi : Int) + 4) (start - (0 : Nat)))
    omega

theorem Between.update (h : Between start lo hi n t.ewmaMs) {ms : Rat} (hs : s.valid? = some ms)
    (hlo : lo ≤ ms) (hhi : ms ≤ hi) : Between start lo hi (n + 1) (t.update s).2.ewmaMs := by
  have habove : min 800 (min ((lo : Int) - 3) (start + n)) ≤ t.ewmaMs := h.above
  have hbelow : t.ewmaMs ≤ max 60 (max ((hi : Int) + 4) (start - n)) := h.below
  have hmin : 60 ≤ t.ewmaMs := h.clamped.1
  have hmax : t.ewmaMs ≤ 800 := h.clamped.2
  have hpos : 0 < ms := valid_pos hs
  have hnext : (t.update s).2.ewmaMs = max 60 (min (round (average t.ewmaMs ms)) 800) := by
    rw [RttTracker.update, hs]
    rfl
  rw [hnext]
  refine ⟨?_, ?_, ?_, ?_⟩
  · change min 800 (min ((lo : Int) - 3) (start + (n + 1 : Nat))) ≤ _
    by_cases hzero : lo = 0
    · omega
    · have hcapped : ((min lo 803 : Nat) : Int) ≤ ms := by
        apply le_trans _ hlo
        rw [Int.cast_natCast, Nat.cast_le]
        exact min_le_left _ _
      have hle := le_round_average (by omega) hmax (by omega) (by omega) hcapped
      omega
  · change _ ≤ max 60 (max ((hi : Int) + 4) (start - (n + 1 : Nat)))
    by_cases hlarge : hi ≤ 796
    · have hle := round_average_le (by omega) hmax (show ((hi : Nat) : Int) ≤ 2 ^ 20 by omega) hpos
        (by rwa [Int.cast_natCast])
      omega
    · omega
  · exact le_max_left _ _
  · exact max_le (by decide) (min_le_right _ _)

theorem between_track (ht : minMs ≤ t.ewmaMs ∧ t.ewmaMs ≤ maxMs) (samples : List Sample)
    (h : ∀ s ∈ samples, ∀ ms, s.valid? = some ms → lo ≤ ms ∧ ms ≤ hi) :
    Between t.ewmaMs lo hi (samples.filterMap Sample.valid?).length (t.track samples).ewmaMs ∧
      (t.track samples).ttlMinMs = t.ttlMinMs := by
  induction samples using List.reverseRecOn with
  | nil => exact ⟨between_start ht, rfl⟩
  | append_singleton samples s ih =>
      obtain ⟨hbetween, httl⟩ := ih fun s' hs' => h s' (List.mem_append_left _ hs')
      rw [RttTracker.track, List.foldl_append, List.filterMap_append, List.length_append]
      change Between _ _ _ _ ((RttTracker.track _ samples).update s).2.ewmaMs ∧
          ((RttTracker.track _ samples).update s).2.ttlMinMs = _
      cases hs : s.valid? with
      | none =>
          rw [List.filterMap_cons_none hs, RttTracker.update, hs]
          exact ⟨hbetween, httl⟩
      | some ms =>
          obtain ⟨hlo, hhi⟩ := h s (by simp) ms hs
          rw [List.filterMap_cons_some hs]
          refine ⟨hbetween.update hs hlo hhi, ?_⟩
          rw [RttTracker.update, hs]
          exact httl

end Steps

/-- The tracker follows the connection: from wherever it is between 60 and 800 ms it moves by a
whole millisecond for every sample until it is no more than 3 ms below the least and 4 ms above the
greatest that is measured from there on, whatever the order of the samples and whatever is read
beside them that is no number; it stays between 60 and 800 ms, and a datagram lives three times as
long, at least the configured time and at most 1500 ms. -/
theorem rtt_followed (start : RttTracker) (hstart : 60 ≤ start.ewmaMs ∧ start.ewmaMs ≤ 800)
    (samples : List Sample) (lo hi : Nat)
    (h : ∀ s ∈ samples, ∀ ms, s.valid? = some ms → lo ≤ ms ∧ ms ≤ hi) :
    let t := start.track samples
    let n := (samples.filterMap Sample.valid?).length
    (min 800 (min ((lo : Int) - 3) (start.ewmaMs + n)) ≤ t.ewmaMs ∧
        t.ewmaMs ≤ max 60 (max ((hi : Int) + 4) (start.ewmaMs - n))) ∧
      (60 ≤ t.ewmaMs ∧ t.ewmaMs ≤ 800) ∧
      t.adaptiveTtl = min 1500 (max start.ttlMinMs (3 * t.ewmaMs)) := by
  intro t n
  obtain ⟨hbetween, httl⟩ := between_track hstart samples h
  refine ⟨⟨hbetween.above, hbetween.below⟩, hbetween.clamped, ?_⟩
  have hlives : t.adaptiveTtl = min (max (t.ewmaMs * 3) start.ttlMinMs) 1500 := by
    rw [RttTracker.adaptiveTtl, httl]
    rfl
  omega

/-- After thirty samples of 100 ms the path gets slower: twenty samples of 200 ms. -/
theorem rtt_followed_slower :
    let before := (RttTracker.new 400).track (List.replicate 30 (.finite 100))
    (min 800 (min (200 - 3) (before.ewmaMs + 20)) : Int) ≤
      (before.track (List.replicate 20 (.finite 200))).ewmaMs :=
  (rtt_followed _ (by decide +kernel) (List.replicate 20 (.finite 200)) 200 200 (by
    intro s hs ms hms
    rw [List.eq_of_mem_replicate hs] at hms
    obtain rfl : (200 : Rat) = ms := Option.some.inj hms
    constructor <;> norm_num)).1.1

end SrtVpn.Latency
