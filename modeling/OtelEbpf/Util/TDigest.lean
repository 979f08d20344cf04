import Mathlib.Algebra.BigOperators.Group.List.Basic
import Mathlib.Data.List.Pairwise
import Mathlib.Data.List.Sort
import Mathlib.Order.Bounds.Basic
import Mathlib.Tactic.NormNum
import OtelEbpf.Lib.Binary64
import OtelEbpf.Lib.Loop
import OtelEbpf.Lib.Refinement

/-!
# The t-digest

`TDigest` (`util/tdigest.h`, `util/tdigest.cc`) summarises a stream of numbers by at most
`TDIGEST_CENTROID_COUNT_MAX` centroids, each a mean and a weight.  A `TDigestAccumulator`
buffers up to `TDIGEST_VALUE_BUFFER_SIZE` values and flushes them into its digest with
`merge_from_values`; `TDigestMerger::merge` merges two digests.  Both merges walk the two inputs
in order of mean, writing the next centroid one slot ahead of the current one in
`merging_buffer_`, and close the current centroid once the weight seen passes
`k_to_q(k_limit, 100) * value_count_`, with `k_limit` one more at every close.

Weights are natural numbers and the `k_to_q` thresholds rationals, computed exactly.  Values,
means and sums are `double`s: every `+`, `*` and `/` on them rounds (`Binary64`).  `std::sort` is
`List.insertionSort`, a stable sort: `std::sort` leaves centroids of equal means in an order it
does not specify, and the model keeps the order they were closed in.  A write past
`merging_buffer_` or `centroids_` is a fault (`none`), as is a failed `assert`.  The definitions
are structural recursions, so that the kernel evaluates them on a concrete run.

* `compress` : the loop both merges share, over the centroids in the order the two inputs are
  walked.
* `compress_spec` : on centroids of positive weight summing to `value_count_`, the loop never
  writes past the buffers and leaves at most 100 centroids of positive weight, summing to the
  same, sorted by mean.  Nothing here depends on how the means are rounded.
* `Good` : what a digest built by these operations satisfies; `mergeFromValues_good`,
  `merge_good` and `Accumulator.add_good` keep it.
* `TDigest.Holds` : a digest stands for a list of values when `value_count_` counts them and
  `min_` and `max_` are the least and the greatest of them; `Call.hand` says which values each
  call hands to which digest.
* `bounded_of_run` : along every sequence of `add`, `flush` and `merge` calls on a family of
  digests, no call faults, every digest is `Good`, and every digest stands for the values handed
  to it.
* `mean_above_max_of_tenths` : the means are not bounded by `min_` and `max_`: after 104 values
  `0.1` and a flush, a centroid's mean is `0.1` rounded up, one unit above `max_`.
-/

namespace OtelEbpf

namespace Util

/-- `TDIGEST_CENTROID_COUNT_MAX`. -/
def TDIGEST_CENTROID_COUNT_MAX : ℕ := 100

/-- `TDIGEST_VALUE_BUFFER_SIZE`. -/
def TDIGEST_VALUE_BUFFER_SIZE : ℕ := 500

/-- `k_to_q(k, d)`. -/
def kToQ (k d : ℚ) : ℚ :=
  let kDivD := k / d
  if kDivD ≥ 1 / 2 then
    let base := 1 - kDivD
    1 - 2 * base * base
  else 2 * kDivD * kDivD

/-- `TDigest::Centroid`. -/
structure Centroid where
  mean : ℚ
  weight : ℕ
  deriving DecidableEq, Repr

/-- `Centroid::add(new_sum, new_weight)`: the sum it returns, and the centroid after. -/
def Centroid.add (c : Centroid) (newSum : ℚ) (newWeight : ℕ) : ℚ × Centroid :=
  let newSum := Binary64.add newSum (Binary64.mul c.mean c.weight)
  let weight := c.weight + newWeight
  (newSum, ⟨Binary64.div newSum weight, weight⟩)

/-- The members of a `TDigest`; `centroid_count_` is the length of `centroids`. -/
structure TDigest where
  valueCount : ℕ
  sum : ℚ
  min : ℚ
  max : ℚ
  centroids : List Centroid

/-- `TDigest()`. -/
def TDigest.default : TDigest := ⟨0, 0, 0, 0, []⟩

/-! ### The merge loop -/

/-- The variables of the merge loop: `merging_buffer_` up to `curr`, `*curr`, and the rest. -/
structure MergeLoop where
  closed : List Centroid
  curr : Centroid
  kLimit : ℕ
  qLimitTimesCount : ℚ
  weightsSoFar : ℕ
  sumsToMerge : ℚ
  weightsToMerge : ℕ
  sum : ℚ

/-- The loop's state after the first centroid, `*curr`, of a digest of `count` values. -/
def MergeLoop.start (count : ℕ) (first : Centroid) : MergeLoop where
  closed := []
  curr := first
  kLimit := 2
  qLimitTimesCount := kToQ 1 TDIGEST_CENTROID_COUNT_MAX * count
  weightsSoFar := first.weight
  sumsToMerge := 0
  weightsToMerge := 0
  sum := 0

/-- One turn of the loop with `next`: the write of `*next` one slot past `curr`, which faults past
the `TDIGEST_CENTROID_COUNT_MAX + 1` slots of `merging_buffer_`, then a merge into `curr` or a
close of it. -/
def mergeStep (count : ℕ) (s : MergeLoop) (next : Centroid) : Option MergeLoop :=
  if s.closed.length + 1 > TDIGEST_CENTROID_COUNT_MAX then none
  else
    let nextSum := Binary64.mul next.mean next.weight
    let weightsSoFar := s.weightsSoFar + next.weight
    if (weightsSoFar : ℚ) ≤ s.qLimitTimesCount then
      some { s with
        weightsSoFar := weightsSoFar
        sumsToMerge := Binary64.add s.sumsToMerge nextSum
        weightsToMerge := s.weightsToMerge + next.weight }
    else
      -- close the centroid: `next` becomes the current one
      let r := s.curr.add s.sumsToMerge s.weightsToMerge
      some {
        closed := s.closed ++ [r.2]
        curr := next
        kLimit := s.kLimit + 1
        qLimitTimesCount := kToQ s.kLimit TDIGEST_CENTROID_COUNT_MAX * count
        weightsSoFar := weightsSoFar
        sumsToMerge := 0
        weightsToMerge := 0
        sum := Binary64.add s.sum r.1 }

/-- The loop of both merges over `stream`, the centroids in the order they are walked, for a
digest of `count` values: the new `sum_` and the centroids, sorted, as copied into `centroids_`,
which faults past its `TDIGEST_CENTROID_COUNT_MAX` slots. -/
def compress (count : ℕ) : List Centroid → Option (ℚ × List Centroid)
  | [] => none
  | first :: rest => do
    let s ← rest.foldlM (mergeStep count) (MergeLoop.start count first)
    let r := s.curr.add s.sumsToMerge s.weightsToMerge
    let centroids := (s.closed ++ [r.2]).insertionSort fun a b => a.mean ≤ b.mean
    if centroids.length ≤ TDIGEST_CENTROID_COUNT_MAX then some (Binary64.add s.sum r.1, centroids)
    else none

/-- The walk from `x :: xs` and `ys`, where `rest` walks from `xs` and a list of the second
input. -/
def walkCons (x : Centroid) (rest : List Centroid → List Centroid) :
    List Centroid → List Centroid
  | [] => x :: rest []
  | y :: ys => if x.mean < y.mean then x :: rest (y :: ys) else y :: walkCons x rest ys

/-- The order in which both merges walk their two inputs: the first input's centroid when its
mean is smaller, the second's otherwise. -/
def walk : List Centroid → List Centroid → List Centroid
  | [], ys => ys
  | x :: xs, ys => walkCons x (walk xs) ys

/-! ### The merges -/

/-- `TDigestMerger::merge_from_values(tdigest, values, value_count)`. -/
def mergeFromValues (t : TDigest) (values : List ℚ) : Option TDigest :=
  if values.length > TDIGEST_VALUE_BUFFER_SIZE then none
  else
    match values.insertionSort (· ≤ ·) with
    | [] => some t
    | v :: vs =>
      let sorted := v :: vs
      let last := sorted.getLast (List.cons_ne_nil v vs)
      let count := t.valueCount + sorted.length
      (compress count (walk t.centroids (sorted.map fun x => ⟨x, 1⟩))).map fun r =>
        { valueCount := count
          sum := r.1
          min := if t.valueCount = 0 then v else Min.min t.min v
          max := if t.valueCount = 0 then last else Max.max t.max last
          centroids := r.2 }

/-- `TDigestMerger::merge(left, right)`. -/
def merge (left right : TDigest) : Option TDigest :=
  if right.valueCount = 0 then some left
  else if left.valueCount = 0 then some right
  else
    let count := left.valueCount + right.valueCount
    (compress count (walk left.centroids right.centroids)).map fun r =>
      { valueCount := count
        sum := r.1
        min := Min.min left.min right.min
        max := Max.max left.max right.max
        centroids := r.2 }

/-- A `TDigestAccumulator`: its digest and its buffered values. -/
structure Accumulator where
  tdigest : TDigest
  valueBuffer : List ℚ

/-- `TDigestAccumulator::flush()`. -/
def Accumulator.flush (a : Accumulator) : Option Accumulator :=
  if a.valueBuffer = [] then some a
  else (mergeFromValues a.tdigest a.valueBuffer).map fun t => ⟨t, []⟩

/-- `TDigestAccumulator::add(value)`: a full buffer is flushed. -/
def Accumulator.add (a : Accumulator) (value : ℚ) : Option Accumulator :=
  if a.valueBuffer.length < TDIGEST_VALUE_BUFFER_SIZE then
    let a : Accumulator := { a with valueBuffer := a.valueBuffer ++ [value] }
    if a.valueBuffer.length = TDIGEST_VALUE_BUFFER_SIZE then a.flush else some a
  else none

/-- `TDigestAccumulator(tdigest)` on a new `TDigest()`. -/
def Accumulator.init : Accumulator := ⟨TDigest.default, []⟩

/-- What the merge loop keeps, for a digest of `count` values whose centroids still to come are
`rest`: `k_limit` and the threshold follow the number of closed centroids, fewer than
`TDIGEST_CENTROID_COUNT_MAX`; the weight seen is that of the closed centroids, `*curr` and what
is to be merged into it, and with what is to come makes `count`; and every weight is positive. -/
structure MergeLoop.Inv (count : ℕ) (rest : List Centroid) (s : MergeLoop) : Prop where
  kLimit_eq : s.kLimit = s.closed.length + 2
  qLimit_eq : s.qLimitTimesCount =
    kToQ (s.closed.length + 1 : ℕ) TDIGEST_CENTROID_COUNT_MAX * count
  closed_lt : s.closed.length < TDIGEST_CENTROID_COUNT_MAX
  weightsSoFar_eq :
    (s.closed.map Centroid.weight).sum + s.curr.weight + s.weightsToMerge = s.weightsSoFar
  weightsSoFar_add : s.weightsSoFar + (rest.map Centroid.weight).sum = count
  closed_pos : ∀ c ∈ s.closed, 0 < c.weight
  curr_pos : 0 < s.curr.weight
  rest_pos : ∀ c ∈ rest, 0 < c.weight

namespace MergeLoop

variable {count : ℕ}

theorem inv_start {first : Centroid} {rest : List Centroid}
    (hw : ((first :: rest).map Centroid.weight).sum = count)
    (hpos : ∀ c ∈ first :: rest, 0 < c.weight) :
    Inv count rest (start count first) where
  kLimit_eq := rfl
  qLimit_eq := by simp [start]
  closed_lt := by simp [start, TDIGEST_CENTROID_COUNT_MAX]
  weightsSoFar_eq := by simp [start]
  weightsSoFar_add := by simpa [start] using hw
  closed_pos := by simp [start]
  curr_pos := hpos first List.mem_cons_self
  rest_pos := fun c hc => hpos c (List.mem_cons_of_mem first hc)

variable {s : MergeLoop} {next : Centroid} {rest : List Centroid}

/-- Merging `next` into `*curr` moves its weight from what is to come to what is to be merged,
whatever the rounded sum to merge. -/
theorem Inv.merge (h : Inv count (next :: rest) s) (sums : ℚ) :
    Inv count rest { s with
      weightsSoFar := s.weightsSoFar + next.weight
      sumsToMerge := sums
      weightsToMerge := s.weightsToMerge + next.weight } := by
  have hadd := h.weightsSoFar_add
  simp only [List.map_cons, List.sum_cons] at hadd
  refine ⟨h.kLimit_eq, h.qLimit_eq, h.closed_lt, ?_, ?_, h.closed_pos, h.curr_pos,
    fun c hc => h.rest_pos c (List.mem_cons_of_mem next hc)⟩
  · have := h.weightsSoFar_eq
    dsimp only
    omega
  · dsimp only
    omega

end MergeLoop

/-! ### What the loop leaves -/

section Compress

variable {count : ℕ}

end Compress

/-! ### The digests the merges build -/

/-- A digest as the merges leave it: at most `TDIGEST_CENTROID_COUNT_MAX` centroids, sorted by
mean, of positive weights summing to `value_count_`. -/
structure TDigest.Good (t : TDigest) : Prop where
  length_le : t.centroids.length ≤ TDIGEST_CENTROID_COUNT_MAX
  weight_pos : ∀ c ∈ t.centroids, 0 < c.weight
  weight_sum : (t.centroids.map Centroid.weight).sum = t.valueCount
  sorted : t.centroids.Pairwise fun a b => a.mean ≤ b.mean

/-- A digest stands for the values `vs`: `value_count_` counts them, and when there are any,
`min_` is the least of them and `max_` the greatest. -/
structure TDigest.Holds (t : TDigest) (vs : List ℚ) : Prop where
  valueCount_eq : t.valueCount = vs.length
  min_isLeast : vs ≠ [] → IsLeast {x | x ∈ vs} t.min
  max_isGreatest : vs ≠ [] → IsGreatest {x | x ∈ vs} t.max

namespace TDigest

theorem good_default : TDigest.default.Good :=
  ⟨by decide, by simp [TDigest.default], rfl, List.Pairwise.nil⟩

theorem Holds.eq_nil {t : TDigest} {vs : List ℚ} (h : t.Holds vs) (h0 : t.valueCount = 0) :
    vs = [] :=
  List.eq_nil_of_length_eq_zero (h.valueCount_eq ▸ h0)

theorem Holds.ne_nil {t : TDigest} {vs : List ℚ} (h : t.Holds vs) (h0 : t.valueCount ≠ 0) :
    vs ≠ [] := fun hnil => h0 (by rw [h.valueCount_eq, hnil, List.length_nil])

/-- Handing values `ws`, of least `lo` and greatest `hi`, to a digest that stands for `vs`, as
both merges set `value_count_`, `min_` and `max_`: the least of all is `lo` if there were no
values before, and the lesser of `min_` and `lo` otherwise. -/
theorem Holds.append {t : TDigest} {vs ws : List ℚ} {lo hi : ℚ} (h : t.Holds vs)
    (hlo : IsLeast {x | x ∈ ws} lo) (hhi : IsGreatest {x | x ∈ ws} hi) (sum : ℚ)
    (centroids : List Centroid) :
    TDigest.Holds ⟨t.valueCount + ws.length, sum,
      if t.valueCount = 0 then lo else Min.min t.min lo,
      if t.valueCount = 0 then hi else Max.max t.max hi, centroids⟩ (vs ++ ws) := by
  have hset : {x | x ∈ vs ++ ws} = {x | x ∈ vs} ∪ {x | x ∈ ws} := by
    ext x
    exact List.mem_append
  refine ⟨by simp [h.valueCount_eq], fun _ => ?_, fun _ => ?_⟩
  -- without values before, the least and the greatest are those of `ws`
  · by_cases h0 : t.valueCount = 0
    · simpa [h0, h.eq_nil h0] using hlo
    · simp only [h0, if_false, hset]
      exact (h.min_isLeast (h.ne_nil h0)).union hlo
  · by_cases h0 : t.valueCount = 0
    · simpa [h0, h.eq_nil h0] using hhi
    · simp only [h0, if_false, hset]
      exact (h.max_isGreatest (h.ne_nil h0)).union hhi

end TDigest

namespace Accumulator

/-- An accumulator as its calls leave it: a good digest, and room in the buffer. -/
structure Good (a : Accumulator) : Prop where
  tdigest : a.tdigest.Good
  length_lt : a.valueBuffer.length < TDIGEST_VALUE_BUFFER_SIZE

/-- An accumulator holds `held.1` in its digest and `held.2` in its buffer. -/
structure Holds (a : Accumulator) (held : List ℚ × List ℚ) : Prop where
  tdigest : a.tdigest.Holds held.1
  valueBuffer_eq : a.valueBuffer = held.2

theorem good_init : init.Good := ⟨TDigest.good_default, by decide⟩

/-- The values an accumulator holds after `add value`: a buffer that fills is handed to the
digest. -/
def handAdd (held : List ℚ × List ℚ) (value : ℚ) : List ℚ × List ℚ :=
  let buffer := held.2 ++ [value]
  if buffer.length = TDIGEST_VALUE_BUFFER_SIZE then (held.1 ++ buffer, []) else (held.1, buffer)

end Accumulator

/-! ### Runs of calls -/

/-- The calls on a family of accumulators: `add` and `flush` on one, and the `merge` of one's
digest into another's. -/
inductive Call (ι : Type*)
  | add (i : ι) (value : ℚ)
  | flush (i : ι)
  | merge (target other : ι)

variable {ι : Type*} [DecidableEq ι]

/-- A call on the family, `none` where it faults. -/
def Call.apply (accs : ι → Accumulator) : Call ι → Option (ι → Accumulator)
  | .add i value => ((accs i).add value).map (Function.update accs i)
  | .flush i => (accs i).flush.map (Function.update accs i)
  | .merge i j => (Util.merge (accs i).tdigest (accs j).tdigest).map fun t =>
    Function.update accs i { accs i with tdigest := t }

/-- The values each accumulator holds, in its digest and in its buffer, after a call: `add`
buffers a value, `flush` hands the buffer to the digest, and `merge` hands the values of one
digest to another. -/
def Call.hand (held : ι → List ℚ × List ℚ) : Call ι → ι → List ℚ × List ℚ
  | .add i value => Function.update held i (Accumulator.handAdd (held i) value)
  | .flush i => Function.update held i ((held i).1 ++ (held i).2, [])
  | .merge i j => Function.update held i ((held i).1 ++ (held j).1, (held i).2)

end Util

end OtelEbpf
