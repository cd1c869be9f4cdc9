import Kaelix.Lib.OrderStatistics
import Mathlib.Data.List.GetD

/-!
# The latency histogram

`LatencyHistogram` of `runtime/metrics.rs` counts latencies in buckets between fixed boundaries.
`percentile` adds the counts up to a target and answers with the lower boundary of the bucket
where it stops, with `0` for the first bucket and with twice the last boundary for the one above
all boundaries.

Latencies are `u64`; the counters of samples do not overflow.  The target count is exact.
-/

namespace Kaelix.Core.Runtime

open Lib

/-- The boundaries of `LatencyHistogram::new`, in microseconds. -/
def defaultBoundaries : List Nat :=
  [1, 2, 5, 10, 20, 50, 100, 200, 500, 1000, 2000, 5000, 10000, 20000, 50000, 100000, 200000,
    500000, 1000000, 2000000, 5000000, 10000000]

/-- How many samples each bucket has. -/
structure LatencyHistogram where
  buckets : List Nat
  boundaries : List Nat
  totalSamples : Nat
  sumLatencies : Nat
  minLatency : Nat
  maxLatency : Nat
  deriving DecidableEq

/-- Where the binary search ends: at the boundary if the latency is one, else before the first
boundary above it. -/
def bucketIdx (boundaries : List Nat) (latencyUs : Nat) : Nat :=
  boundaries.findIdx (latencyUs ≤ ·)

namespace LatencyHistogram

def new : LatencyHistogram :=
  { buckets := List.replicate (defaultBoundaries.length + 1) 0
    boundaries := defaultBoundaries
    totalSamples := 0
    sumLatencies := 0
    minLatency := 2 ^ 64 - 1
    maxLatency := 0 }

def record (h : LatencyHistogram) (latencyUs : Nat) : LatencyHistogram :=
  { h with
    buckets := h.buckets.modify (bucketIdx h.boundaries latencyUs) (· + 1)
    totalSamples := h.totalSamples + 1
    sumLatencies := (h.sumLatencies + latencyUs) % 2 ^ 64
    minLatency := if latencyUs < h.minLatency then latencyUs else h.minLatency
    maxLatency := if latencyUs > h.maxLatency then latencyUs else h.maxLatency }

def estimate (h : LatencyHistogram) (i : Nat) : Nat :=
  if i = 0 then h.boundaries.getD 0 0 / 2
  else if i ≥ h.boundaries.length then h.boundaries.getD (h.boundaries.length - 1) 0 * 2
  else h.boundaries.getD (i - 1) 0

/-- The bucket that reaches the rank. -/
def percentile (h : LatencyHistogram) (p : Nat) : Nat :=
  let total := h.totalSamples
  if total = 0 then 0
  else
    let targetCount := total * p / 100
    match crossing targetCount 0 h.buckets with
    | some i => h.estimate i
    | none => h.maxLatency

def recordAll (samples : List Nat) : LatencyHistogram := samples.foldl record new

end LatencyHistogram

def bucket (latencyUs : Nat) : Nat := bucketIdx defaultBoundaries latencyUs

def lowerBound (i : Nat) : Nat := if i = 0 then 0 else defaultBoundaries.getD (i - 1) 0

def upperBound (i : Nat) : Option Nat := defaultBoundaries[i]?

/-- The percentile is within the bounds of the bucket of `x`, and not above all samples. -/
structure InBucket (samples : List Nat) (p x : Nat) : Prop where
  lower : lowerBound (bucket x) ≤ (LatencyHistogram.recordAll samples).percentile p
  upper : ∀ bound ∈ upperBound (bucket x),
    (LatencyHistogram.recordAll samples).percentile p ≤ bound
  max : ∃ y ∈ samples, (LatencyHistogram.recordAll samples).percentile p ≤ y

/-! ## What is recorded -/

/-- The histogram has counted these samples. -/
structure Records (h : LatencyHistogram) (samples : List Nat) : Prop where
  buckets : h.buckets = histogram (defaultBoundaries.length + 1) (samples.map bucket)
  boundaries : h.boundaries = defaultBoundaries
  total : h.totalSamples = samples.length

theorem records_recordAll (samples : List Nat) :
    Records (LatencyHistogram.recordAll samples) samples := by
  induction samples using List.reverseRecOn with
  | nil => exact ⟨by rw [List.map_nil, histogram_nil]; rfl, rfl, rfl⟩
  | append_singleton samples x ih =>
    rw [LatencyHistogram.recordAll, List.foldl_concat]
    refine ⟨?_, ih.boundaries, ?_⟩
    · rw [List.map_append, List.map_singleton, histogram_concat, ← ih.buckets, bucket,
        ← ih.boundaries]
      rfl
    · rw [List.length_append, ← ih.total]
      rfl

/-! ## Buckets -/

theorem bucket_monotone : Monotone bucket := by
  intro x y hxy
  rw [bucket, bucket, bucketIdx, bucketIdx]
  apply List.findIdx_le_findIdx
  intro b _ hb
  simp only [decide_eq_true_eq] at hb ⊢
  exact le_trans hxy hb

theorem bucket_le (x : Nat) : bucket x ≤ 22 := List.findIdx_le_length

theorem lowerBound_le (x : Nat) : lowerBound (bucket x) ≤ x := by
  by_cases h0 : bucket x = 0
  · simp [lowerBound, h0]
  · have hlt : bucket x - 1 < defaultBoundaries.findIdx (x ≤ ·) := by
      show bucket x - 1 < bucket x
      omega
    have hnot := List.not_of_lt_findIdx hlt
    have hlen : bucket x - 1 < defaultBoundaries.length := lt_of_lt_of_le hlt (bucket_le x)
    rw [lowerBound, if_neg h0, List.getD_eq_getElem _ _ hlen]
    exact le_of_lt (by simpa using hnot)

private theorem estimate_lt_lowerBound :
    ∀ j ≤ 22, ∀ i < j, LatencyHistogram.new.estimate i < lowerBound j := by
  decide

private theorem estimate_eq_lowerBound : ∀ j < 22, LatencyHistogram.new.estimate j = lowerBound j
    := by
  decide

private theorem estimate_bounds : ∀ j ≤ 22, lowerBound j ≤ LatencyHistogram.new.estimate j ∧
    ∀ bound ∈ upperBound j, LatencyHistogram.new.estimate j ≤ bound := by
  decide

/-! ## Where the sum reaches the target -/

variable {samples : List Nat} {p : Nat}

private theorem percentile_spec (hne : samples ≠ []) (hp : p ≤ 100) :
    ∃ i ≤ 22, (LatencyHistogram.recordAll samples).percentile p =
        LatencyHistogram.new.estimate i ∧
      samples.length * p / 100 ≤ atMost (samples.map bucket) i ∧
      ∀ j < i, atMost (samples.map bucket) j < samples.length * p / 100 := by
  have h := records_recordAll samples
  have htot : samples.length ≠ 0 := by simpa using hne
  -- all samples are up to the last bucket
  have hall : (histogram 23 (samples.map bucket)).sum = samples.length := by
    have hsum := sum_take_histogram (show 22 < 23 by decide) (samples.map bucket)
    rw [List.take_of_length_le (by simp [length_histogram])] at hsum
    rw [hsum, atMost, List.countP_map]
    simpa [List.countP_eq_length] using fun x _ => bucket_le x
  have htgt : samples.length * p / 100 ≤ 0 + (histogram 23 (samples.map bucket)).sum := by
    rw [hall]
    have := Nat.mul_le_mul_left samples.length hp
    omega
  obtain ⟨i, hi⟩ := exists_crossing (by simp [histogram]) htgt
  obtain ⟨hlt, hat, hbef⟩ := crossing_spec hi
  rw [length_histogram] at hlt
  refine ⟨i, by omega, ?_, ?_, fun j hj => ?_⟩
  · simp only [LatencyHistogram.percentile, h.total, h.buckets, htot, if_false]
    rw [show defaultBoundaries.length + 1 = 23 from rfl, hi]
    simp [LatencyHistogram.estimate, h.boundaries, LatencyHistogram.new]
  · rwa [Nat.zero_add, sum_take_histogram hlt] at hat
  · have hj' := hbef j hj
    rwa [Nat.zero_add, sum_take_histogram (by omega)] at hj'

private theorem stop_eq_iff {x i : Nat} (hp : 0 < p) (hx : NearestRank samples p x)
    (hat : samples.length * p / 100 ≤ atMost (samples.map bucket) i)
    (hbef : ∀ j < i, atMost (samples.map bucket) j < samples.length * p / 100) :
    i ≤ bucket x ∧ (i = bucket x ↔
      bucket x = 0 ∨ atMost (samples.map bucket) (bucket x - 1) < samples.length * p / 100) := by
  have hrank := (hx.class hp bucket_monotone).1
  have hle : i ≤ bucket x := by
    by_contra hlt
    have := hbef (bucket x) (by omega)
    rw [Nat.mul_comm] at hrank
    omega
  refine ⟨hle, ?_, ?_⟩
  · rintro rfl
    by_cases h0 : bucket x = 0
    · exact .inl h0
    · exact .inr (hbef _ (by omega))
  · rintro (h0 | hlt)
    · omega
    · by_contra hne
      -- the sum of a bucket in between is at least that where it stops
      have hmono : atMost (samples.map bucket) i ≤ atMost (samples.map bucket) (bucket x - 1) := by
        apply List.countP_mono_left
        intro y _ hy
        simp only [decide_eq_true_eq] at hy ⊢
        omega
      omega

/-- For samples and a percentage: there is a sample of the nearest rank, and the percentile is
within the bounds of its bucket and not above all samples iff the samples of the buckets before
do not reach the target, and there is a sample of twice the last boundary if the bucket is the
last. -/
theorem percentile_in_bucket_iff (samples : List Nat) (hne : samples ≠ []) (p : Nat)
    (hp : 1 ≤ p ∧ p ≤ 100) :
    (∃ x, NearestRank samples p x) ∧ ∀ x, NearestRank samples p x →
      (InBucket samples p x ↔
        (bucket x = 0 ∨
          atMost (samples.map bucket) (bucket x - 1) < samples.length * p / 100) ∧
        (bucket x = 22 → ∃ y ∈ samples, 20000000 ≤ y)) := by
  refine ⟨exists_nearestRank hne hp.2, fun x hx => ?_⟩
  obtain ⟨i, hi, hvalue, hat, hbef⟩ := percentile_spec hne hp.2
  obtain ⟨hle, hstop⟩ := stop_eq_iff hp.1 hx hat hbef
  rw [← hstop]
  constructor
  · intro h
    have hi' : i = bucket x := by
      by_contra hne'
      have hlt := estimate_lt_lowerBound (bucket x) (bucket_le x) i (by omega)
      have hlower := h.lower
      omega
    refine ⟨hi', fun hlast => ?_⟩
    have hmax := h.max
    rw [hvalue, hi', hlast] at hmax
    exact hmax
  · rintro ⟨rfl, hlast⟩
    obtain ⟨hlower, hupper⟩ := estimate_bounds _ hi
    refine ⟨hvalue ▸ hlower, hvalue ▸ hupper, ?_⟩
    rw [hvalue]
    by_cases h22 : bucket x = 22
    · rw [h22]
      exact hlast h22
    · refine ⟨x, hx.mem, le_trans ?_ (lowerBound_le x)⟩
      exact le_of_eq (estimate_eq_lowerBound _ (by omega))

private theorem nearestRank_singleton (x : Nat) (hp : p ≤ 100) : NearestRank [x] p x :=
  ⟨by simp, by simpa [atMost] using hp, by simp⟩

theorem percentile_in_bucket_threeSamples :
    [3, 8, 300] ≠ [] ∧ (1 ≤ 100 ∧ 100 ≤ 100) ∧ NearestRank [3, 8, 300] 100 300 ∧
      InBucket [3, 8, 300] 100 300 := by
  have hrank : NearestRank [3, 8, 300] 100 300 := ⟨by decide, by decide, by decide⟩
  refine ⟨by decide, by decide, hrank, ?_⟩
  exact ((percentile_in_bucket_iff _ (by decide) 100 (by decide)).2 300 hrank).mpr (by decide)

/-- The median of one sample of a millisecond is said to be `0`, and the greatest of one sample
of just over ten seconds twenty seconds. -/
theorem percentile_outside_bucket :
    NearestRank [1000] 50 1000 ∧ (LatencyHistogram.recordAll [1000]).percentile 50 = 0 ∧
      lowerBound (bucket 1000) = 500 ∧ ¬ InBucket [1000] 50 1000 ∧
      NearestRank [10000001] 100 10000001 ∧
      (LatencyHistogram.recordAll [10000001]).percentile 100 = 20000000 ∧
      ¬ InBucket [10000001] 100 10000001 := by
  refine ⟨nearestRank_singleton _ (by decide), by decide, by decide, fun h => ?_,
    nearestRank_singleton _ (by decide), by decide, fun h => ?_⟩
  · exact absurd h.lower (by decide)
  · exact absurd h.max (by decide)

end Kaelix.Core.Runtime
