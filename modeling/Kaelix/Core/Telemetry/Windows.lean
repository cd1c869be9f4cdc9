import Kaelix.Core.Telemetry.TimeSeries

/-!
# Aggregation windows

The loop of `create_aggregation_windows` goes from the first timestamp in steps of the window size
while it is before the last one.  Each window ends before its end.
-/

namespace Kaelix.Core.Telemetry

open Lib

variable {F : Type}

def boundary (first : Int) (windowSize i : Nat) : Int := first + (i * windowSize : Nat)

def windowCount (first last : Int) (windowSize : Nat) : Nat :=
  ((last - first).toNat + windowSize - 1) / windowSize

def windowsUpTo (ops : Arithmetic F) (values : List (TimestampedValue F)) (first : Int)
    (windowSize n : Nat) : List (AggregationWindow F) :=
  (List.range n).filterMap fun i =>
    TimeSeriesMetric.window? ops values (boundary first windowSize i)
      (boundary first windowSize (i + 1))

theorem boundary_zero (first : Int) (windowSize : Nat) : boundary first windowSize 0 = first := by
  simp [boundary]

theorem boundary_succ (first : Int) (windowSize i : Nat) :
    boundary first windowSize (i + 1) = boundary first windowSize i + windowSize := by
  rw [boundary, boundary, Nat.succ_mul]
  omega

variable {i : Nat}

theorem boundary_le {first : Int} {windowSize j : Nat} (h : i ≤ j) :
    boundary first windowSize i ≤ boundary first windowSize j := by
  have := Nat.mul_le_mul_right windowSize h
  rw [boundary, boundary]
  omega

variable {n : Nat}

theorem le_boundary_iff {first last : Int} {windowSize : Nat} (hw : 0 < windowSize) :
    last ≤ boundary first windowSize n ↔ windowCount first last windowSize ≤ n := by
  rw [windowCount, Nat.div_le_iff_le_mul_add_pred hw, boundary, Nat.mul_comm]
  omega

theorem boundary_windowCount_eq_iff {first last : Int} {windowSize : Nat} (hw : 0 < windowSize)
    (hle : first ≤ last) :
    boundary first windowSize (windowCount first last windowSize) = last ↔
      (windowSize : Int) ∣ last - first := by
  rw [Int.natCast_dvd]
  constructor
  · intro h
    refine ⟨windowCount first last windowSize, ?_⟩
    rw [boundary, Nat.mul_comm] at h
    omega
  · rintro ⟨n, hn⟩
    have hlast : last = boundary first windowSize n := by
      rw [boundary, Nat.mul_comm]
      omega
    have hcnt : boundary first windowSize (windowCount first last windowSize) ≤
        boundary first windowSize n := boundary_le ((le_boundary_iff hw).mp hlast.le)
    exact Int.le_antisymm (hlast ▸ hcnt) ((le_boundary_iff hw).mpr (Nat.le_refl _))

/-! ## The loop -/

namespace TimeSeriesMetric

section

variable (ops : Arithmetic F) (values : List (TimestampedValue F)) (first last : Int)
  (windowSize : Nat)

theorem windowsUpTo_succ (n : Nat) :
    windowsUpTo ops values first windowSize (n + 1) =
      windowsUpTo ops values first windowSize n ++
        (window? ops values (boundary first windowSize n)
          (boundary first windowSize (n + 1))).toList := by
  rw [windowsUpTo, List.range_succ, List.filterMap_append]
  congr 1

theorem windowRound_boundary (i : Nat) :
    windowRound ops values last windowSize
        (boundary first windowSize i, windowsUpTo ops values first windowSize i) =
      if boundary first windowSize i < last then
        if maxSystemTime < boundary first windowSize (i + 1) then
          .inr (.error ⟨"overflow when adding duration to instant"⟩)
        else
          .inl (boundary first windowSize (i + 1),
            windowsUpTo ops values first windowSize (i + 1))
      else .inr (.ok (windowsUpTo ops values first windowSize i)) := by
  rw [windowsUpTo_succ, boundary_succ, windowRound, addDuration]
  by_cases hmax : maxSystemTime < boundary first windowSize i + windowSize <;> simp [hmax]

variable {values first last windowSize}

theorem iterate_windowRound (hw : 0 < windowSize)
    (hroom : boundary first windowSize (windowCount first last windowSize) ≤ maxSystemTime)
    (hn : i + n = windowCount first last windowSize) :
    Loop.iterate (windowRound ops values last windowSize) (n + 1)
        (boundary first windowSize i, windowsUpTo ops values first windowSize i) =
      some (.ok (windowsUpTo ops values first windowSize
        (windowCount first last windowSize))) := by
  induction n generalizing i with
  | zero =>
    have hend : ¬ boundary first windowSize i < last :=
      Int.not_lt.mpr ((le_boundary_iff hw).mpr (by omega))
    rw [Loop.iterate, windowRound_boundary, if_neg hend, ← hn, Nat.add_zero]
  | succ n ih =>
    have hgo : boundary first windowSize i < last :=
      Int.not_le.mp fun h => by
        have := (le_boundary_iff hw).mp h
        omega
    have hnext : ¬ maxSystemTime < boundary first windowSize (i + 1) := by
      have : boundary first windowSize (i + 1) ≤ _ := boundary_le (by omega :
        i + 1 ≤ windowCount first last windowSize)
      omega
    rw [Loop.iterate, windowRound_boundary, if_pos hgo, if_neg hnext]
    exact ih (by omega)

theorem of_iterate_windowRound {windows : List (AggregationWindow F)}
    (h : Loop.iterate (windowRound ops values last windowSize) n
      (boundary first windowSize i, windowsUpTo ops values first windowSize i) =
        some (.ok windows)) :
    last ≤ boundary first windowSize i ∨
      ∃ k, i < k ∧ last ≤ boundary first windowSize k ∧
        boundary first windowSize k ≤ maxSystemTime := by
  induction n generalizing i with
  | zero => cases h
  | succ n ih =>
    rw [Loop.iterate, windowRound_boundary] at h
    by_cases hgo : boundary first windowSize i < last
    · rw [if_pos hgo] at h
      by_cases hmax : maxSystemTime < boundary first windowSize (i + 1)
      · rw [if_pos hmax] at h
        cases h
      · rw [if_neg hmax] at h
        rcases ih h with hlast | ⟨k, hk, hlast, hroom⟩
        · exact .inr ⟨i + 1, Nat.lt_succ_self i, hlast, Int.not_lt.mp hmax⟩
        · exact .inr ⟨k, by omega, hlast, hroom⟩
    · exact .inl (Int.not_lt.mp hgo)

end

/-! ## What the windows hold -/

end TimeSeriesMetric

def between (values : List (TimestampedValue F)) (start end_ : Int) : List (TimestampedValue F) :=
  values.filter fun v => v.timestamp ≥ start && v.timestamp < end_

variable {v : TimestampedValue F}

theorem mem_between_iff {values : List (TimestampedValue F)} {start end_ : Int} :
    v ∈ between values start end_ ↔ v ∈ values ∧ start ≤ v.timestamp ∧ v.timestamp < end_ := by
  simp [between]

theorem length_between_add (values : List (TimestampedValue F)) {a b c : Int} (hab : a ≤ b)
    (hbc : b ≤ c) :
    (between values a b).length + (between values b c).length = (between values a c).length := by
  induction values with
  | nil => rfl
  | cons v values ih =>
    simp only [between, List.filter_cons, Bool.and_eq_true, decide_eq_true_eq,
      apply_ite List.length, List.length_cons] at ih ⊢
    split <;> split <;> split <;> omega

/-- The time is in the window. -/
def AggregationWindow.Covers (window : AggregationWindow F) (time : Int) : Prop :=
  window.start ≤ time ∧ time < window.end_

/-- Every value is in exactly one window, the windows hold the values that are in them, they are
disjoint and in increasing order, and their counts add up to the number of values. -/
structure Partitions (values : List (TimestampedValue F)) (windows : List (AggregationWindow F)) :
    Prop where
  each : ∀ v ∈ values, ∃! window, window ∈ windows ∧ window.Covers v.timestamp
  contents : ∀ window ∈ windows,
    window.values = (between values window.start window.end_).map (·.value) ∧
      window.count = window.values.length
  proper : ∀ window ∈ windows, window.start < window.end_
  ordered : windows.Pairwise fun a b => a.end_ ≤ b.start
  counts : (windows.map (·.count)).sum = values.length

namespace TimeSeriesMetric

section

variable {ops : Arithmetic F} {values : List (TimestampedValue F)} {first : Int}
  {windowSize n : Nat}

theorem window?_eq_none_iff {currentTime windowEnd : Int} :
    window? ops values currentTime windowEnd = none ↔
      between values currentTime windowEnd = [] := by
  simp [window?, between]

variable {window : AggregationWindow F}

theorem of_window?_eq_some {currentTime windowEnd : Int}
    (h : window? ops values currentTime windowEnd = some window) :
    window.start = currentTime ∧ window.end_ = windowEnd ∧
      window.values = (between values currentTime windowEnd).map (·.value) ∧
      window.count = (between values currentTime windowEnd).length := by
  rw [window?] at h
  split at h
  · cases h
  · cases h
    simp [between]

theorem mem_windowsUpTo_iff :
    window ∈ windowsUpTo ops values first windowSize n ↔
      ∃ i < n, window? ops values (boundary first windowSize i)
        (boundary first windowSize (i + 1)) = some window := by
  simp [windowsUpTo]

private theorem sum_counts_windowsUpTo (n : Nat) :
    ((windowsUpTo ops values first windowSize n).map (·.count)).sum =
      (between values first (boundary first windowSize n)).length := by
  induction n with
  | zero =>
    have hnone : between values first first = [] := by
      rw [between, List.filter_eq_nil_iff]
      intro v _
      simp
    simp [windowsUpTo, boundary_zero, hnone]
  | succ n ih =>
    have hround : ((window? ops values (boundary first windowSize n)
        (boundary first windowSize (n + 1))).toList.map (·.count)).sum =
          (between values (boundary first windowSize n)
            (boundary first windowSize (n + 1))).length := by
      cases h : window? ops values (boundary first windowSize n)
        (boundary first windowSize (n + 1)) with
      | none => simp [window?_eq_none_iff.mp h]
      | some window => simp [of_window?_eq_some h]
    have hstart : first ≤ boundary first windowSize n := by
      rw [boundary]
      omega
    rw [windowsUpTo_succ, List.map_append, List.sum_append, ih, hround,
      length_between_add values hstart (boundary_le (Nat.le_succ n))]

private theorem covered_iff {time : Int} (hfirst : first ≤ time) (hw : 0 < windowSize) :
    boundary first windowSize i ≤ time ∧ time < boundary first windowSize (i + 1) ↔
      i = (time - first).toNat / windowSize := by
  rw [eq_comm, Nat.div_eq_iff hw, boundary, boundary, Nat.succ_mul]
  omega

private theorem existsUnique_window (hv : v ∈ values) (hfirst : first ≤ v.timestamp)
    (hw : 0 < windowSize) (hlast : v.timestamp < boundary first windowSize n) :
    ∃! window, window ∈ windowsUpTo ops values first windowSize n ∧
      window.Covers v.timestamp := by
  have hcovered := (covered_iff hfirst hw).mpr rfl
  generalize (v.timestamp - first).toNat / windowSize = i at hcovered
  have hi : i < n := by
    by_contra hle
    have : boundary first windowSize n ≤ boundary first windowSize i :=
      boundary_le (Nat.not_lt.mp hle)
    omega
  obtain ⟨window, hwin⟩ : ∃ window, window? ops values (boundary first windowSize i)
      (boundary first windowSize (i + 1)) = some window := by
    rw [← Option.ne_none_iff_exists', ne_eq, window?_eq_none_iff]
    exact List.ne_nil_of_mem (mem_between_iff.mpr ⟨hv, hcovered⟩)
  have hspec := of_window?_eq_some hwin
  refine ⟨window, ⟨mem_windowsUpTo_iff.mpr ⟨i, hi, hwin⟩, ?_⟩, ?_⟩
  · rwa [AggregationWindow.Covers, hspec.1, hspec.2.1]
  · rintro other ⟨hmem, hoth⟩
    obtain ⟨j, -, hj⟩ := mem_windowsUpTo_iff.mp hmem
    have hspec' := of_window?_eq_some hj
    rw [AggregationWindow.Covers, hspec'.1, hspec'.2.1, covered_iff hfirst hw] at hoth
    rw [covered_iff hfirst hw, ← hoth] at hcovered
    rw [hcovered, hj] at hwin
    exact Option.some.inj hwin

private theorem pairwise_windowsUpTo (n : Nat) :
    (windowsUpTo ops values first windowSize n).Pairwise fun a b => a.end_ ≤ b.start := by
  refine List.pairwise_filterMap.mpr (List.pairwise_lt_range.imp ?_)
  intro i j hij a ha b hb
  rw [(of_window?_eq_some ha).2.1, (of_window?_eq_some hb).1]
  exact boundary_le hij

private theorem partitions_windowsUpTo_iff {last : Int} (hw : 0 < windowSize)
    (hfirst : ∀ v ∈ values, first ≤ v.timestamp) (hlast : ∀ v ∈ values, v.timestamp ≤ last)
    (hmem : ∃ v ∈ values, v.timestamp = last) :
    Partitions values (windowsUpTo ops values first windowSize n) ↔
      last < boundary first windowSize n := by
  constructor
  · intro h
    obtain ⟨v, hv, hvlast⟩ := hmem
    obtain ⟨window, ⟨hwin, hcov⟩, -⟩ := h.each v hv
    obtain ⟨i, hi, hspec⟩ := mem_windowsUpTo_iff.mp hwin
    rw [AggregationWindow.Covers, (of_window?_eq_some hspec).2.1] at hcov
    have : boundary first windowSize (i + 1) ≤ boundary first windowSize n := boundary_le hi
    omega
  · intro h
    have hbef : ∀ v ∈ values, v.timestamp < boundary first windowSize n := fun v hv =>
      Int.lt_of_le_of_lt (hlast v hv) h
    constructor
    · exact fun v hv => existsUnique_window hv (hfirst v hv) hw (hbef v hv)
    · intro window hwin
      obtain ⟨i, -, hspec⟩ := mem_windowsUpTo_iff.mp hwin
      simp [of_window?_eq_some hspec]
    · intro window hwin
      obtain ⟨i, -, hspec⟩ := mem_windowsUpTo_iff.mp hwin
      rw [(of_window?_eq_some hspec).1, (of_window?_eq_some hspec).2.1, boundary_succ]
      omega
    · exact pairwise_windowsUpTo n
    · rw [sum_counts_windowsUpTo, between, List.filter_eq_self.mpr]
      intro v hv
      simp [hfirst v hv, hbef v hv]

end

/-! ## Results -/

section

variable (ops : Arithmetic F) (values : List (TimestampedValue F))
  (first last : TimestampedValue F) (windowSize : Nat)

section

variable {values : List (TimestampedValue F)} {first last : TimestampedValue F}
  (hhead : values.head? = some first) (hend : values.getLast? = some last)
include hhead hend

private theorem timestamps_between (hsort : values.Pairwise fun a b => a.timestamp ≤ b.timestamp) :
    (∀ v ∈ values, first.timestamp ≤ v.timestamp) ∧
      ∀ v ∈ values, v.timestamp ≤ last.timestamp := by
  obtain ⟨rest, rfl⟩ := List.head?_eq_some_iff.mp hhead
  obtain ⟨before, hbef⟩ := List.getLast?_eq_some_iff.mp hend
  constructor
  · intro v hv
    rcases List.mem_cons.mp hv with rfl | hv
    · exact Int.le_refl _
    · exact List.rel_of_pairwise_cons hsort hv
  · intro v hv
    rw [hbef] at hv hsort
    rcases List.mem_append.mp hv with hv | hv
    · exact (List.pairwise_append.mp hsort).2.2 v hv last List.mem_cons_self
    · rw [List.mem_singleton.mp hv]

private theorem createAggregationWindows_eq (rounds windowSize : Nat) :
    createAggregationWindows ops rounds values windowSize =
      Loop.iterate (windowRound ops values last.timestamp windowSize) rounds
        (boundary first.timestamp windowSize 0,
          windowsUpTo ops values first.timestamp windowSize 0) := by
  rw [createAggregationWindows, hhead, hend, boundary_zero]
  rfl

end

private theorem createAggregationWindows_eq_ok {values : List (TimestampedValue F)}
    {first last : TimestampedValue F} {windowSize : Nat} (hhead : values.head? = some first)
    (hend : values.getLast? = some last) (hw : 0 < windowSize)
    (hroom : boundary first.timestamp windowSize
      (windowCount first.timestamp last.timestamp windowSize) ≤ maxSystemTime) :
    createAggregationWindows ops (windowCount first.timestamp last.timestamp windowSize + 1)
        values windowSize =
      some (.ok (windowsUpTo ops values first.timestamp windowSize
        (windowCount first.timestamp last.timestamp windowSize))) := by
  rw [createAggregationWindows_eq ops hhead hend]
  exact iterate_windowRound ops hw hroom (Nat.zero_add _)

theorem createAggregationWindows_returns_iff {values : List (TimestampedValue F)}
    {first last : TimestampedValue F} (hhead : values.head? = some first)
    (hend : values.getLast? = some last) (windowSize : Nat) :
    (∃ rounds windows, createAggregationWindows ops rounds values windowSize =
        some (.ok windows)) ↔
      last.timestamp ≤ first.timestamp ∨
        0 < windowSize ∧ boundary first.timestamp windowSize
          (windowCount first.timestamp last.timestamp windowSize) ≤ maxSystemTime := by
  constructor
  · rintro ⟨rounds, windows, h⟩
    rw [createAggregationWindows_eq ops hhead hend] at h
    rcases of_iterate_windowRound ops h with hle | ⟨k, -, hk, hroom⟩
    · exact .inl (boundary_zero first.timestamp windowSize ▸ hle)
    · rcases Nat.eq_zero_or_pos windowSize with rfl | hw
      · exact .inl (by simpa [boundary] using hk)
      · exact .inr ⟨hw, Int.le_trans (boundary_le ((le_boundary_iff hw).mp hk)) hroom⟩
  · rintro (hle | ⟨hw, hroom⟩)
    · refine ⟨1, [], ?_⟩
      rw [createAggregationWindows_eq ops hhead hend, Loop.iterate, windowRound_boundary,
        boundary_zero, if_neg (Int.not_lt.mpr hle)]
      rfl
    · exact ⟨_, _, createAggregationWindows_eq_ok ops hhead hend hw hroom⟩

/-- The windows partition the values exactly if the time from the first to the last one is not
a multiple of the window size. -/
theorem windows_partition_iff (hhead : values.head? = some first)
    (hend : values.getLast? = some last)
    (hsort : values.Pairwise fun a b => a.timestamp ≤ b.timestamp) (hw : 0 < windowSize)
    (hroom : boundary first.timestamp windowSize
      (windowCount first.timestamp last.timestamp windowSize) ≤ maxSystemTime) :
    ∃ rounds windows, createAggregationWindows ops rounds values windowSize = some (.ok windows) ∧
      (Partitions values windows ↔ ¬ (windowSize : Int) ∣ last.timestamp - first.timestamp) := by
  obtain ⟨hfirst, hlast⟩ := timestamps_between hhead hend hsort
  have hmem := List.mem_of_getLast? hend
  have hreach : last.timestamp ≤ boundary first.timestamp windowSize
      (windowCount first.timestamp last.timestamp windowSize) :=
    (le_boundary_iff hw).mpr (Nat.le_refl _)
  refine ⟨_, _, createAggregationWindows_eq_ok ops hhead hend hw hroom, ?_⟩
  rw [partitions_windowsUpTo_iff hw hfirst hlast ⟨last, hmem, rfl⟩,
    ← boundary_windowCount_eq_iff hw (hfirst last hmem)]
  omega

end

/-- Values at 0, 30 and 50 in windows of 30. -/
theorem windows_partition_fifty :
    ∃ rounds windows, createAggregationWindows .unit rounds
        [⟨(), 0⟩, ⟨(), 30⟩, ⟨(), 50⟩] 30 = some (.ok windows) ∧
      Partitions [⟨(), 0⟩, ⟨(), 30⟩, ⟨(), 50⟩] windows := by
  obtain ⟨rounds, windows, h, hiff⟩ := windows_partition_iff .unit
    [⟨(), 0⟩, ⟨(), 30⟩, ⟨(), 50⟩] ⟨(), 0⟩ ⟨(), 50⟩ 30 rfl rfl (by simp) (by decide) (by decide)
  exact ⟨rounds, windows, h, hiff.mpr (by decide)⟩

/-- One value is in no window.  With values at 0, 30 and 60 the last one is in no window of
length 30. -/
theorem windows_partition_fails :
    (createAggregationWindows .unit 1 [⟨(), 0⟩] 30 = some (.ok []) ∧
      ¬ Partitions [⟨(), 0⟩] ([] : List (AggregationWindow Unit))) ∧
    ∃ windows, createAggregationWindows .unit 3
        [⟨(), 0⟩, ⟨(), 30⟩, ⟨(), 60⟩] 30 = some (.ok windows) ∧
      windows.map (fun window => (window.start, window.end_, window.count)) =
        [(0, 30, 1), (30, 60, 1)] ∧
      ¬ Partitions [⟨(), 0⟩, ⟨(), 30⟩, ⟨(), 60⟩] windows := by
  refine ⟨⟨rfl, fun h => ?_⟩, _, rfl, by decide, fun h => ?_⟩
  · exact absurd h.counts (by decide)
  · exact absurd h.counts (by decide)

private theorem query_returns_iff_windows (ops : Arithmetic F) (self : TimeSeriesMetric F)
    {metricsQuery : MetricsQuery} {windowSize : Nat}
    (h : metricsQuery.aggregationWindow = some windowSize) :
    (∃ rounds data, self.query ops rounds metricsQuery = some (.ok data)) ↔
      ∃ rounds windows, createAggregationWindows ops rounds (self.filteredValues metricsQuery)
        windowSize = some (.ok windows) := by
  refine exists_congr fun rounds => ?_
  simp only [query, h]
  constructor
  · rintro ⟨data, hdata⟩
    match hwindows : createAggregationWindows ops rounds (self.filteredValues metricsQuery)
      windowSize with
    | some (.ok windows) => exact ⟨windows, rfl⟩
    | some (.error p) =>
      rw [hwindows] at hdata
      cases hdata
    | none =>
      rw [hwindows] at hdata
      cases hdata
  · rintro ⟨windows, hwindows⟩
    rw [hwindows]
    exact ⟨_, rfl⟩

/-- A query returns exactly if it has no window size, finds no values, finds a last value that is
not later than the first one, or has a positive window size that carries the loop to the last
timestamp before the times get too large. -/
theorem query_returns_iff (ops : Arithmetic F) (self : TimeSeriesMetric F)
    (metricsQuery : MetricsQuery) :
    (∃ rounds data, self.query ops rounds metricsQuery = some (.ok data)) ↔
      ∀ windowSize first last, metricsQuery.aggregationWindow = some windowSize →
        (self.filteredValues metricsQuery).head? = some first →
        (self.filteredValues metricsQuery).getLast? = some last →
        last.timestamp ≤ first.timestamp ∨
          0 < windowSize ∧ boundary first.timestamp windowSize
            (windowCount first.timestamp last.timestamp windowSize) ≤ maxSystemTime := by
  cases hwin : metricsQuery.aggregationWindow with
  | none => simp [query, hwin, Except.map]
  | some windowSize =>
    rw [query_returns_iff_windows ops self hwin]
    generalize self.filteredValues metricsQuery = values
    constructor
    · intro hreturns _ first last heq hhead hend
      cases heq
      exact (createAggregationWindows_returns_iff ops hhead hend windowSize).mp hreturns
    · intro h
      cases hhead : values.head? with
      | none => exact ⟨0, [], by simp [createAggregationWindows, hhead]⟩
      | some first =>
        cases hend : values.getLast? with
        | none => exact ⟨0, [], by simp [createAggregationWindows, hend]⟩
        | some last =>
          exact (createAggregationWindows_returns_iff ops hhead hend windowSize).mpr
            (h windowSize first last rfl hhead hend)

/-- Two values, and windows of no length: the loop stays at the first one.  With windows of the
largest length it panics. -/
theorem query_returns_fails :
    (¬ ∃ rounds data, query .unit rounds
      { values := [⟨(), 0⟩, ⟨(), 1⟩], aggregated := .default .unit, lastUpdated := 0 }
      { startTime := none, endTime := none, aggregationWindow := some 0,
        includeRawValues := false } = some (.ok data)) ∧
    query .unit 1
      { values := [⟨(), 0⟩, ⟨(), 1⟩], aggregated := .default .unit, lastUpdated := 0 }
      { startTime := none, endTime := none,
        aggregationWindow := some ((2 ^ 64 - 1) * 1000000000 + 999999999),
        includeRawValues := false } =
      some (.error ⟨"overflow when adding duration to instant"⟩) := by
  constructor
  · rw [query_returns_iff_windows .unit _ rfl, createAggregationWindows_returns_iff .unit rfl rfl]
    decide
  · rfl

end TimeSeriesMetric

end Kaelix.Core.Telemetry
