import Mathlib

/-!
# Gauges

`data::Gauge<T>` (`util/gauge.h`, `util/gauge.inl`) summarises a stream of samples: the last
value, the minimum, the maximum, the sum and the count.  `operator+=(T)` adds one sample and
takes the sample as both extrema when the gauge is empty; `operator+=(Gauge)` merges another
gauge into this one and has no such case.  A default-constructed or `reset()` gauge holds
`T{}`, which is `0` for the arithmetic types it is instantiated at, in every field.

The samples range over a type `T` with a total order and a commutative `+` whose `T{}` is `0`.
`Summarises g l` says that `g` holds what accumulating the samples `l` gives: their count, their
sum, and, when `l` is not empty, Mathlib's `List.minimum` and `List.maximum` of them.

* `summarises_foldl` : adding samples one by one, from a default, a one-sample or a reset
  gauge, keeps the summary of all samples seen.
* `Summarises.addGauge` : merging two gauges of non-empty sample lists summarises the
  concatenation.
* `addGauge_min`, `addGauge_max` : the merge takes the extrema of both gauges' fields, so a
  merge with an empty gauge brings its `T{}` into them: `merge_empty_gauge_min` shows the
  minimum `0` after merging an empty gauge with the gauge of the one sample `5`.
-/

namespace OtelEbpf

namespace Util

variable {T : Type*}

/-- `data::Gauge<T>`. -/
structure Gauge (T : Type*) where
  value : T
  min : T
  max : T
  sum : T
  count : ℕ
  changed : Bool
  deriving DecidableEq, Repr

namespace Gauge

section Ops

variable [LinearOrder T] [AddCommMonoid T]

/-- `Gauge()`: every field `T{}`, `count_ = 0`, `changed_ = false`. -/
def default : Gauge T := ⟨0, 0, 0, 0, 0, false⟩

/-- `Gauge(T data)`: one sample. -/
def ofValue (data : T) : Gauge T := ⟨data, data, data, data, 1, true⟩

/-- `bool empty() const { return !count_; }` -/
def empty (g : Gauge T) : Bool := g.count = 0

/-- `operator+=(T const &value)`: an empty gauge takes the sample as both extrema. -/
def addValue (g : Gauge T) (value : T) : Gauge T where
  value := value
  min := if g.empty then value else if value < g.min then value else g.min
  max := if g.empty then value else if value > g.max then value else g.max
  sum := g.sum + value
  count := g.count + 1
  changed := decide (g.value ≠ value)

/-- `operator+=(Gauge const &value)`: the extrema are compared with no case for an empty gauge
on either side. -/
def addGauge (g other : Gauge T) : Gauge T where
  value := other.value
  min := if other.min < g.min then other.min else g.min
  max := if other.max > g.max then other.max else g.max
  sum := g.sum + other.sum
  count := g.count + other.count
  changed := decide (g.value ≠ other.value ∨ g.min ≠ other.min ∨ g.max ≠ other.max ∨
    g.sum ≠ other.sum ∨ g.count ≠ other.count)

/-- `reset()`: every field but `changed_` back to its default. -/
def reset (g : Gauge T) : Gauge T := { g with value := 0, min := 0, max := 0, sum := 0, count := 0 }

theorem addGauge_min (g other : Gauge T) : (g.addGauge other).min = Min.min g.min other.min := by
  simp only [addGauge]
  split
  · rw [min_eq_right (le_of_lt ‹_›)]
  · rw [min_eq_left (not_lt.mp ‹_›)]

theorem addGauge_max (g other : Gauge T) : (g.addGauge other).max = Max.max g.max other.max := by
  simp only [addGauge, gt_iff_lt]
  split
  · rw [max_eq_right (le_of_lt ‹_›)]
  · rw [max_eq_left (not_lt.mp ‹_›)]

end Ops

/-! ### The summary of a list of samples -/

section Summary

variable [LinearOrder T] [AddCommMonoid T]

/-- `g` holds what accumulating the samples `l` gives. -/
structure Summarises (g : Gauge T) (l : List T) : Prop where
  count : g.count = l.length
  sum : g.sum = l.sum
  min : l ≠ [] → (g.min : WithTop T) = l.minimum
  max : l ≠ [] → (g.max : WithBot T) = l.maximum

theorem summarises_default : Summarises (default : Gauge T) [] :=
  ⟨rfl, rfl, fun h => absurd rfl h, fun h => absurd rfl h⟩

theorem summarises_ofValue (data : T) : Summarises (ofValue data) [data] :=
  ⟨rfl, by simp [ofValue], fun _ => by simp [ofValue], fun _ => by simp [ofValue]⟩

theorem summarises_reset (g : Gauge T) : Summarises g.reset [] :=
  ⟨rfl, rfl, fun h => absurd rfl h, fun h => absurd rfl h⟩

variable {g other : Gauge T} {l m : List T}

theorem Summarises.eq_nil_of_empty (hg : Summarises g l) (he : g.empty = true) : l = [] := by
  simpa [empty, hg.count] using he

theorem Summarises.addValue (hg : Summarises g l) (x : T) : Summarises (g.addValue x) (l ++ [x]) := by
  refine ⟨by simp [Gauge.addValue, hg.count], by simp [Gauge.addValue, hg.sum], ?_, ?_⟩
  · intro _
    rw [List.minimum_append, List.minimum_singleton]
    by_cases he : g.empty
    -- an empty gauge summarises no sample: the new sample is the minimum
    · simp [Gauge.addValue, he, hg.eq_nil_of_empty he]
    · have hl : l ≠ [] := by simpa [empty, hg.count] using he
      rw [← hg.min hl]
      simp only [Gauge.addValue, he, Bool.false_eq_true, if_false]
      split
      · rw [min_eq_right (WithTop.coe_le_coe.mpr (le_of_lt ‹_›))]
      · rw [min_eq_left (WithTop.coe_le_coe.mpr (not_lt.mp ‹_›))]
  · intro _
    rw [List.maximum_append, List.maximum_singleton]
    by_cases he : g.empty
    · simp [Gauge.addValue, he, hg.eq_nil_of_empty he]
    · have hl : l ≠ [] := by simpa [empty, hg.count] using he
      rw [← hg.max hl]
      simp only [Gauge.addValue, he, Bool.false_eq_true, if_false, gt_iff_lt]
      split
      · rw [max_eq_right (WithBot.coe_le_coe.mpr (le_of_lt ‹_›))]
      · rw [max_eq_left (WithBot.coe_le_coe.mpr (not_lt.mp ‹_›))]

/-- Adding samples one by one keeps the summary of all samples seen. -/
theorem summarises_foldl (hg : Summarises g l) (xs : List T) :
    Summarises (xs.foldl Gauge.addValue g) (l ++ xs) := by
  induction xs generalizing g l with
  | nil => simpa using hg
  | cons x xs ih =>
    rw [List.foldl_cons, ← List.singleton_append, ← List.append_assoc]
    exact ih (hg.addValue x)

/-- Merging the gauges of two non-empty sample lists summarises their concatenation. -/
theorem Summarises.addGauge (hg : Summarises g l) (ho : Summarises other m) (hl : l ≠ [])
    (hm : m ≠ []) : Summarises (g.addGauge other) (l ++ m) := by
  refine ⟨by simp [Gauge.addGauge, hg.count, ho.count], by simp [Gauge.addGauge, hg.sum, ho.sum],
    fun _ => ?_, fun _ => ?_⟩
  · rw [addGauge_min, List.minimum_append, ← hg.min hl, ← ho.min hm, WithTop.coe_min]
  · rw [addGauge_max, List.maximum_append, ← hg.max hl, ← ho.max hm, WithBot.coe_max]

end Summary

/-- Merging the empty gauge with the gauge of the one sample `5` leaves the minimum at the
empty gauge's `0`, not at the sample's `5`. -/
theorem merge_empty_gauge_min :
    (([] : List ℤ).foldl addValue default).addGauge (([5] : List ℤ).foldl addValue default) =
      ⟨5, 0, 5, 5, 1, true⟩ ∧ ([] ++ [5] : List ℤ).minimum = (5 : ℤ) := by
  decide

end Gauge

end Util

end OtelEbpf
