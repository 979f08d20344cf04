import Mathlib
import OtelEbpf.Lib.Chain
import OtelEbpf.Lib.Run

/-!
# The change queues of `MetricStore`

`MetricStore<Metric, SIZE, N_EPOCHS>` (`util/metric_store.h`) keeps, for every index below
`SIZE`, one metric per epoch, and for every epoch a queue of the indices whose metric changed.
The queues are intrusive: `queue_[e].head_` is the first index, `arr_[i].next[e]` the one after
`i`, `list_end` ends a queue and `invalid` marks an index that is in none.  Both sentinels are the
two largest values of `index_type`, `u16`, or `u32` when `SIZE >= (1 << 16) - 2`.
`lookup_relative` queues an index in the epoch `bin` slots ahead of the current queue,
`current_queue().pop()` takes the head off the current queue, and `advance` moves the current
queue on.

Only the links, the heads, `current_queue_`, `current_timeslot_` and `t_to_timeslot_` are
modelled; the metrics `arr_[i].m[e]` are not, and a reference to one is returned as its epoch.
The `LazyArray` constructs an element with every link `invalid` on its first access, which is
modelled as every element constructed so from the start.  Indices and links are natural numbers,
the epoch arithmetic is on `UInt32` as in the source, and a failed `assert` or an access out of
range is `none`.

* `Queue` : the queue of an epoch holds a list: the links from the head visit it and reach
  `list_end`, and its indices are exactly those linked in that epoch.
* `queues_consistent_of_run` : for `SIZE ≤ 2^32 - 2`, along every run of `lookup`,
  `lookup_relative`, `peek`, `pop` and `advance` every queue holds a list without duplicates,
  `lookup_relative` reports exactly membership and queues an index once, and `pop` takes
  exactly the head off and marks it unqueued.
* `sentinel_index_lost` : with `SIZE = 2^32 - 1` the index `2^32 - 2` is `list_end`, and queueing
  it leaves a queue that looks empty but holds it.
-/

namespace OtelEbpf

namespace Util

/-- `fast_div`: division by a multiplication with `mul_` and a right shift by `shift_`. -/
structure FastDiv where
  mul : UInt32
  shift : UInt32

/-- `operator/(uint64_t x, const fast_div &divisor)`.  A shift by 64 or more, undefined in C++,
is taken modulo 64. -/
def FastDiv.divide (x : UInt64) (divisor : FastDiv) : UInt32 :=
  ((x * divisor.mul.toUInt64) >>> divisor.shift.toUInt64).toUInt32

/-- `histogram_bin(n_bins, item)` (`util/histogram.h`): `item` clamped into `[0, n_bins - 1]`
with masks. -/
def histogramBin (nBins : UInt32) (item : Int32) : UInt32 :=
  let mask := nBins - 1
  -- all ones when `item` is above `mask`
  let overflowMask := ((mask.toInt32 - item) >>> 31).toUInt32
  -- all ones when `item` is negative
  let negMask := (item >>> 31).toUInt32
  let clasped := (item.toUInt32 &&& ~~~negMask) ||| overflowMask
  clasped &&& mask

theorem histogramBin_le (nBins : UInt32) (item : Int32) :
    (histogramBin nBins item).toNat ≤ (nBins - 1).toNat := by
  unfold histogramBin
  rw [UInt32.toNat_and]
  exact Nat.and_le_right

/-- The number of bits of `index_type`: `u32` when `SIZE >= (1 << 16) - 2`, else `u16`. -/
def indexBits (SIZE : ℕ) : ℕ := if SIZE ≥ 2 ^ 16 - 2 then 32 else 16

/-- `invalid`, the largest `index_type`: the link of an index in no queue. -/
def invalid (SIZE : ℕ) : ℕ := 2 ^ indexBits SIZE - 1

/-- `list_end`, one less: the link of the last index of a queue, and the head of an empty one. -/
def listEnd (SIZE : ℕ) : ℕ := 2 ^ indexBits SIZE - 2

/-- A `u32` index stored in an `index_type`. -/
def toIndex (SIZE : ℕ) (index : UInt32) : ℕ := index.toNat % 2 ^ indexBits SIZE

/-- What of a `MetricStore` its queues use: the link `arr_[i].next[e]` of every index `i` in
every epoch `e`, `queue_[e].head_`, `current_queue_`, `current_timeslot_` and
`t_to_timeslot_`. -/
structure MetricStore where
  next : ℕ → ℕ → ℕ
  head : ℕ → ℕ
  currentQueue : UInt32
  currentTimeslot : Option UInt16
  tToTimeslot : FastDiv

namespace MetricStore

variable (SIZE N_EPOCHS : ℕ)

/-- `MetricStore(t_to_timeslot)`: every queue is empty, and every element is linked to no
queue, as `element_type()` constructs it. -/
def new (tToTimeslot : FastDiv) : MetricStore where
  next _ _ := invalid SIZE
  head _ := listEnd SIZE
  currentQueue := 0
  currentTimeslot := none
  tToTimeslot := tToTimeslot

/-- `arr_[i].next[e] = v`. -/
def setNext (s : MetricStore) (i e v : ℕ) : MetricStore :=
  { s with next := fun j f => if j = i ∧ f = e then v else s.next j f }

/-- `queue_[e].head_ = v`. -/
def setHead (s : MetricStore) (e v : ℕ) : MetricStore :=
  { s with head := Function.update s.head e v }

/-- The epoch `bin` slots ahead of the current queue, `(bin + current_queue_) & (n_epochs - 1)`;
`n_epochs - 1` does not wrap, as `N_EPOCHS` is a power of two. -/
def epoch (s : MetricStore) (bin : UInt32) : ℕ := (bin + s.currentQueue).toNat &&& (N_EPOCHS - 1)

/-- `lookup_relative(index, bin, enqueue)`: whether the index was queued in its epoch, and that
epoch, whose metric the returned reference is; the index is queued there first if `enqueue`. -/
def lookupRelative (s : MetricStore) (index bin : UInt32) (enqueue : Bool) :
    Option ((Bool × ℕ) × MetricStore) :=
  if index.toNat < SIZE ∧ bin.toNat < N_EPOCHS then
    let epoch := s.epoch N_EPOCHS bin
    let wasQueued := s.next index.toNat epoch != invalid SIZE
    if enqueue && !wasQueued then
      let s := s.setNext index.toNat epoch (s.head epoch)
      some ((wasQueued, epoch), s.setHead epoch (toIndex SIZE index))
    else some ((wasQueued, epoch), s)
  else none

/-- `relative_timeslot(t)`: the timeslot of `t` less the current one, which the first call
fixes. -/
def relativeTimeslot (s : MetricStore) (t : UInt64) : Int16 × MetricStore :=
  let timeslot := (FastDiv.divide t s.tToTimeslot).toUInt16
  let s := if s.currentTimeslot.isNone then { s with currentTimeslot := some timeslot } else s
  ((timeslot.toInt16.toInt32 - (s.currentTimeslot.getD 0).toUInt32.toInt32).toInt16, s)

/-- `lookup(index, t, enqueue)`. -/
def lookup (s : MetricStore) (index : UInt32) (t : UInt64) (enqueue : Bool) :
    Option ((Bool × ℕ) × MetricStore) :=
  let r := s.relativeTimeslot t
  let bin := histogramBin (UInt32.ofNat N_EPOCHS) r.1.toInt32
  r.2.lookupRelative SIZE N_EPOCHS index bin enqueue

/-- `current_queue().peek()`. -/
def peek (s : MetricStore) : Option ℕ :=
  let q := s.currentQueue.toNat
  if q < N_EPOCHS ∧ s.head q ≠ listEnd SIZE then some (s.head q) else none

/-- `current_queue().pop()`: the head's link becomes the head, and the head is marked
unqueued. -/
def pop (s : MetricStore) : Option MetricStore :=
  let q := s.currentQueue.toNat
  let dequeued := s.head q
  if q < N_EPOCHS ∧ dequeued ≠ listEnd SIZE ∧ dequeued < SIZE then
    let next := s.next dequeued q
    some ((s.setNext dequeued q (invalid SIZE)).setHead q next)
  else none

/-- `advance()`. -/
def advance (s : MetricStore) : MetricStore :=
  { s with
    currentQueue := UInt32.ofNat ((s.currentQueue + 1).toNat &&& (N_EPOCHS - 1))
    currentTimeslot := s.currentTimeslot.map (· + 1) }


/-! ### The sentinels -/

variable {SIZE N_EPOCHS}

theorem two_le_pow_indexBits (SIZE : ℕ) : 2 ≤ 2 ^ indexBits SIZE := by
  unfold indexBits
  split <;> decide

theorem listEnd_lt_invalid (SIZE : ℕ) : listEnd SIZE < invalid SIZE := by
  have := two_le_pow_indexBits SIZE
  unfold listEnd invalid
  omega

/-- No index below `SIZE` is a sentinel: for `u16` by the choice of `index_type`, for `u32` when
`SIZE ≤ 2^32 - 2`. -/
theorem size_le_listEnd (hSIZE : SIZE ≤ 2 ^ 32 - 2) : SIZE ≤ listEnd SIZE := by
  unfold listEnd indexBits
  split <;> omega

/-- Storing an index below `SIZE` in an `index_type` keeps it. -/
theorem toIndex_of_lt {index : UInt32} (h : index.toNat < SIZE) :
    toIndex SIZE index = index.toNat := by
  unfold toIndex indexBits
  split
  · exact Nat.mod_eq_of_lt index.toNat_lt
  · exact Nat.mod_eq_of_lt (by omega)

/-! ### What the writes change -/

@[simp] theorem setNext_next (s : MetricStore) (i e v j f : ℕ) :
    (s.setNext i e v).next j f = if j = i ∧ f = e then v else s.next j f := rfl

@[simp] theorem setNext_head (s : MetricStore) (i e v : ℕ) : (s.setNext i e v).head = s.head :=
  rfl

@[simp] theorem setHead_next (s : MetricStore) (e v : ℕ) : (s.setHead e v).next = s.next := rfl

@[simp] theorem setHead_head (s : MetricStore) (e v : ℕ) :
    (s.setHead e v).head = Function.update s.head e v := rfl

/-- A write of a link in epoch `e` is a write of the successor function of that epoch. -/
theorem column_setNext (s : MetricStore) (i e v : ℕ) :
    (fun j => (s.setNext i e v).next j e) = Function.update (fun j => s.next j e) i v := by
  funext j
  simp [Function.update_apply]

/-- `s'` is `s` but for the queue of epoch `e`. -/
structure SameOutside (e : ℕ) (s s' : MetricStore) : Prop where
  next : ∀ f ≠ e, ∀ i, s'.next i f = s.next i f
  head : ∀ f ≠ e, s'.head f = s.head f
  currentQueue : s'.currentQueue = s.currentQueue

theorem sameOutside_refl (e : ℕ) (s : MetricStore) : SameOutside e s s :=
  ⟨fun _ _ _ => rfl, fun _ _ => rfl, rfl⟩

/-- Writing a link and the head of epoch `e` changes nothing else. -/
theorem sameOutside_set (s : MetricStore) (i e v w : ℕ) :
    SameOutside e s ((s.setNext i e v).setHead e w) where
  next f hf j := by simp [hf]
  head f hf := by simp [Function.update_of_ne hf]
  currentQueue := rfl

/-! ### Queues -/

variable (SIZE) in
/-- The queue of epoch `e` holds `l`: from `queue_[e].head_` the links `arr_[i].next[e]` visit
`l` and reach `list_end`, and the indices in `l` are exactly those below `SIZE` whose link in `e`
is not `invalid`. -/
def Queue (s : MetricStore) (e : ℕ) (l : List ℕ) : Prop :=
  Chain (fun i => s.next i e) (listEnd SIZE) (s.head e) l ∧
    ∀ i, i ∈ l ↔ i < SIZE ∧ s.next i e ≠ invalid SIZE

variable {s s' : MetricStore} {e : ℕ} {l : List ℕ}

theorem Queue.nodup (h : Queue SIZE s e l) : l.Nodup := h.1.nodup

/-- A queue holds distinct indices below `SIZE`, so at most `SIZE` of them: the loops that pop
it run on `SIZE + 1` rounds of fuel. -/
theorem Queue.length_le (h : Queue SIZE s e l) : l.length ≤ SIZE := by
  have hsub : l ⊆ List.range SIZE := fun i hi => List.mem_range.2 ((h.2 i).1 hi).1
  simpa using h.nodup.length_le_of_subset hsub

/-- A queue reads only the links and the head of its epoch. -/
theorem Queue.congr (h : Queue SIZE s e l) (hnext : ∀ i, s'.next i e = s.next i e)
    (hhead : s'.head e = s.head e) : Queue SIZE s' e l := by
  have hcol : (fun i => s'.next i e) = fun i => s.next i e := funext hnext
  refine ⟨?_, fun i => ?_⟩
  · rw [hcol, hhead]
    exact h.1
  · rw [hnext]
    exact h.2 i

theorem Queue.of_sameOutside {f : ℕ} (h : Queue SIZE s f l) (hs : SameOutside e s s')
    (hf : f ≠ e) : Queue SIZE s' f l :=
  h.congr (hs.next f hf) (hs.head f hf)

/-- The head of a queue is never `invalid`: it is `list_end` or an index below `SIZE`. -/
theorem Queue.head_ne_invalid (hSIZE : SIZE ≤ 2 ^ 32 - 2) (h : Queue SIZE s e l) :
    s.head e ≠ invalid SIZE := by
  have hlt := listEnd_lt_invalid SIZE
  cases l with
  | nil =>
    rw [h.1]
    exact Nat.ne_of_lt hlt
  | cons a l =>
    have ha := ((h.2 a).mp List.mem_cons_self).1
    have := size_le_listEnd hSIZE
    rw [h.1.1]
    omega

/-- `lookup_relative` with `enqueue` of an index in no queue of epoch `e` links it in front. -/
theorem Queue.push (hSIZE : SIZE ≤ 2 ^ 32 - 2) (h : Queue SIZE s e l) {i : ℕ} (hi : i < SIZE)
    (hni : i ∉ l) : Queue SIZE ((s.setNext i e (s.head e)).setHead e i) e (i :: l) := by
  have hend : i ≠ listEnd SIZE := by
    have := size_le_listEnd hSIZE
    omega
  refine ⟨?_, fun j => ?_⟩
  · simp only [setHead_next, setHead_head, Function.update_self]
    rw [column_setNext]
    exact h.1.push hni hend
  · by_cases hj : j = i
    · subst hj
      simp [hi, h.head_ne_invalid hSIZE]
    · simp [hj, h.2 j]

/-- `pop` of a queue whose head is `a` leaves the rest of it, with `a` marked unqueued. -/
theorem Queue.pop {a : ℕ} (h : Queue SIZE s e (a :: l)) :
    Queue SIZE ((s.setNext a e (invalid SIZE)).setHead e (s.next a e)) e l := by
  have ha : a ∉ l := (List.nodup_cons.mp h.nodup).1
  refine ⟨?_, fun j => ?_⟩
  · simp only [setHead_next, setHead_head, Function.update_self]
    rw [column_setNext]
    exact h.1.pop (invalid SIZE)
  · by_cases hj : j = a
    · subst hj
      simp [ha]
    · simp [hj, ← h.2 j]

/-! ### The calls -/

theorem epoch_lt (hN : 0 < N_EPOCHS) (s : MetricStore) (bin : UInt32) :
    s.epoch N_EPOCHS bin < N_EPOCHS :=
  Nat.lt_of_le_of_lt Nat.and_le_right (by omega)

theorem lookupRelative_guard {index bin : UInt32} {enqueue : Bool} {r : (Bool × ℕ) × MetricStore}
    (h : s.lookupRelative SIZE N_EPOCHS index bin enqueue = some r) :
    index.toNat < SIZE ∧ bin.toNat < N_EPOCHS := by
  unfold lookupRelative at h
  split at h
  · assumption
  · cases h

/-- `lookup_relative` of an index below `SIZE`: `was_queued` is membership in the queue of its
epoch, which gains the index in front if `enqueue` and it was not there. -/
theorem lookupRelative_spec (hSIZE : SIZE ≤ 2 ^ 32 - 2) {index bin : UInt32} (enqueue : Bool)
    (hi : index.toNat < SIZE) (hb : bin.toNat < N_EPOCHS)
    (hq : Queue SIZE s (s.epoch N_EPOCHS bin) l) :
    ∃ s', s.lookupRelative SIZE N_EPOCHS index bin enqueue =
        some ((decide (index.toNat ∈ l), s.epoch N_EPOCHS bin), s') ∧
      Queue SIZE s' (s.epoch N_EPOCHS bin)
        (if enqueue ∧ index.toNat ∉ l then index.toNat :: l else l) ∧
      SameOutside (s.epoch N_EPOCHS bin) s s' := by
  have hwas : (s.next index.toNat (s.epoch N_EPOCHS bin) != invalid SIZE) =
      decide (index.toNat ∈ l) := by
    rw [Bool.eq_iff_iff, bne_iff_ne, decide_eq_true_iff, hq.2 index.toNat]
    exact (and_iff_right hi).symm
  unfold lookupRelative
  rw [if_pos ⟨hi, hb⟩]
  dsimp only
  rw [hwas]
  by_cases hin : index.toNat ∈ l
  · refine ⟨s, by simp [hin], by simpa [hin] using hq, sameOutside_refl _ s⟩
  · cases enqueue with
    | false => exact ⟨s, by simp, by simpa using hq, sameOutside_refl _ s⟩
    | true =>
      rw [toIndex_of_lt hi]
      refine ⟨(s.setNext index.toNat (s.epoch N_EPOCHS bin) (s.head (s.epoch N_EPOCHS bin))).setHead
        (s.epoch N_EPOCHS bin) index.toNat, by simp [hin], ?_, sameOutside_set ..⟩
      rw [if_pos ⟨rfl, hin⟩]
      exact hq.push hSIZE hi hin

/-- `peek` and `pop` of a current queue with head `a`: `peek` returns `a`, and `pop` takes
exactly `a` off and marks it unqueued. -/
theorem pop_spec (hN : s.currentQueue.toNat < N_EPOCHS) {a : ℕ}
    (hq : Queue SIZE s s.currentQueue.toNat (a :: l)) :
    s.peek SIZE N_EPOCHS = some a ∧
      ∃ s', s.pop SIZE N_EPOCHS = some s' ∧ Queue SIZE s' s.currentQueue.toNat l ∧
        s'.next a s.currentQueue.toNat = invalid SIZE ∧ SameOutside s.currentQueue.toNat s s' := by
  have hhead : s.head s.currentQueue.toNat = a := hq.1.1
  have hend : a ≠ listEnd SIZE := hq.1.2.1
  have ha : a < SIZE := ((hq.2 a).mp List.mem_cons_self).1
  refine ⟨?_, (s.setNext a s.currentQueue.toNat (invalid SIZE)).setHead s.currentQueue.toNat
    (s.next a s.currentQueue.toNat), ?_, hq.pop, by simp, sameOutside_set ..⟩
  · unfold peek
    rw [if_pos ⟨hN, hhead ▸ hend⟩, hhead]
  · unfold pop
    rw [if_pos ⟨hN, hhead ▸ hend, hhead ▸ ha⟩, hhead]

/-! ### The invariant -/

variable (SIZE N_EPOCHS) in
/-- Every queue holds a list, and the current queue is one of them. -/
structure Inv (s : MetricStore) : Prop where
  queue : ∀ e < N_EPOCHS, ∃ l, Queue SIZE s e l
  currentQueue_lt : s.currentQueue.toNat < N_EPOCHS

theorem inv_new (hN : 0 < N_EPOCHS) (tToTimeslot : FastDiv) :
    Inv SIZE N_EPOCHS (new SIZE tToTimeslot) where
  queue _ _ := ⟨[], rfl, fun i => by simp [new]⟩
  currentQueue_lt := hN

/-- A store that changes one queue to another list keeps the invariant. -/
theorem Inv.of_sameOutside (h : Inv SIZE N_EPOCHS s) (hq : Queue SIZE s' e l)
    (hs : SameOutside e s s') : Inv SIZE N_EPOCHS s' where
  queue f hf := by
    by_cases hfe : f = e
    · exact hfe ▸ ⟨l, hq⟩
    · obtain ⟨l', hl'⟩ := h.queue f hf
      exact ⟨l', hl'.of_sameOutside hs hfe⟩
  currentQueue_lt := hs.currentQueue ▸ h.currentQueue_lt

theorem Inv.lookupRelative (hSIZE : SIZE ≤ 2 ^ 32 - 2) (hN : 0 < N_EPOCHS)
    (h : Inv SIZE N_EPOCHS s) {index bin : UInt32} {enqueue : Bool} {r : Bool × ℕ}
    (hstep : s.lookupRelative SIZE N_EPOCHS index bin enqueue = some (r, s')) :
    Inv SIZE N_EPOCHS s' := by
  obtain ⟨hi, hb⟩ := lookupRelative_guard hstep
  obtain ⟨l, hq⟩ := h.queue _ (epoch_lt hN s bin)
  obtain ⟨s'', hs'', hq', hsame⟩ := lookupRelative_spec hSIZE enqueue hi hb hq
  rw [hs''] at hstep
  cases hstep
  exact h.of_sameOutside hq' hsame

/-- `relative_timeslot` touches no queue. -/
theorem relativeTimeslot_snd (s : MetricStore) (t : UInt64) :
    (s.relativeTimeslot t).2.next = s.next ∧ (s.relativeTimeslot t).2.head = s.head ∧
      (s.relativeTimeslot t).2.currentQueue = s.currentQueue := by
  unfold relativeTimeslot
  split <;> exact ⟨rfl, rfl, rfl⟩

theorem Inv.relativeTimeslot (h : Inv SIZE N_EPOCHS s) (t : UInt64) :
    Inv SIZE N_EPOCHS (s.relativeTimeslot t).2 := by
  obtain ⟨hnext, hhead, hcq⟩ := relativeTimeslot_snd s t
  refine ⟨fun e he => ?_, hcq ▸ h.currentQueue_lt⟩
  obtain ⟨l, hq⟩ := h.queue e he
  exact ⟨l, hq.congr (by simp [hnext]) (by simp [hhead])⟩

/-- `histogram_bin(n_epochs, ·)` always passes the `bin < n_epochs` assert of
`lookup_relative`. -/
theorem histogramBin_lt (hN : 0 < N_EPOCHS) (item : Int32) :
    (histogramBin (UInt32.ofNat N_EPOCHS) item).toNat < N_EPOCHS := by
  have hle := histogramBin_le (UInt32.ofNat N_EPOCHS) item
  have hlt := (histogramBin (UInt32.ofNat N_EPOCHS) item).toNat_lt
  by_cases hwrap : N_EPOCHS % 2 ^ 32 = 0
  · -- `n_epochs` truncates to `0`, and is at least `2^32`
    have : 2 ^ 32 ≤ N_EPOCHS := Nat.le_of_dvd hN (Nat.dvd_of_mod_eq_zero hwrap)
    omega
  · have hone : (1 : UInt32) ≤ UInt32.ofNat N_EPOCHS := by
      rw [UInt32.le_iff_toNat_le, UInt32.toNat_ofNat']
      simp only [UInt32.toNat_one]
      omega
    rw [UInt32.toNat_sub_of_le _ _ hone, UInt32.toNat_ofNat'] at hle
    have := Nat.mod_le N_EPOCHS (2 ^ 32)
    simp only [UInt32.toNat_one] at hle
    omega

theorem lookup_eq (s : MetricStore) (index : UInt32) (t : UInt64) (enqueue : Bool) :
    s.lookup SIZE N_EPOCHS index t enqueue = (s.relativeTimeslot t).2.lookupRelative SIZE N_EPOCHS
      index (histogramBin (UInt32.ofNat N_EPOCHS) (s.relativeTimeslot t).1.toInt32) enqueue :=
  rfl

theorem Inv.lookup (hSIZE : SIZE ≤ 2 ^ 32 - 2) (hN : 0 < N_EPOCHS) (h : Inv SIZE N_EPOCHS s)
    {index : UInt32} {t : UInt64} {enqueue : Bool} {r : Bool × ℕ}
    (hstep : s.lookup SIZE N_EPOCHS index t enqueue = some (r, s')) : Inv SIZE N_EPOCHS s' :=
  (h.relativeTimeslot t).lookupRelative hSIZE hN (lookup_eq s index t enqueue ▸ hstep)

theorem Inv.pop (h : Inv SIZE N_EPOCHS s) (hstep : s.pop SIZE N_EPOCHS = some s') :
    Inv SIZE N_EPOCHS s' := by
  obtain ⟨l, hq⟩ := h.queue _ h.currentQueue_lt
  cases l with
  | nil =>
    -- the current queue is empty, and `pop` fails its `assert`
    have hhead : s.head s.currentQueue.toNat = listEnd SIZE := hq.1
    unfold MetricStore.pop at hstep
    rw [if_neg fun hg => hg.2.1 hhead] at hstep
    cases hstep
  | cons a l =>
    obtain ⟨-, s'', hs'', hq', -, hsame⟩ := pop_spec h.currentQueue_lt hq
    rw [hs''] at hstep
    cases hstep
    exact h.of_sameOutside hq' hsame

theorem Inv.advance (hN : 0 < N_EPOCHS) (h : Inv SIZE N_EPOCHS s) :
    Inv SIZE N_EPOCHS (s.advance N_EPOCHS) where
  queue := h.queue
  currentQueue_lt := by
    have hand := Nat.and_le_right (n := (s.currentQueue + 1).toNat) (m := N_EPOCHS - 1)
    show (UInt32.ofNat _).toNat < N_EPOCHS
    rw [UInt32.toNat_ofNat']
    have := Nat.mod_le ((s.currentQueue + 1).toNat &&& (N_EPOCHS - 1)) (2 ^ 32)
    omega

/-! ### What the store's users read -/

/-- `lookup_relative` without `enqueue` changes nothing. -/
theorem lookupRelative_false (s : MetricStore) (index bin : UInt32) :
    s.lookupRelative SIZE N_EPOCHS index bin false =
      if index.toNat < SIZE ∧ bin.toNat < N_EPOCHS then
        some ((s.next index.toNat (s.epoch N_EPOCHS bin) != invalid SIZE, s.epoch N_EPOCHS bin), s)
      else none := by
  unfold lookupRelative
  split <;> simp

/-- A second `relative_timeslot` at the same time returns the same and changes nothing. -/
theorem relativeTimeslot_idem (s : MetricStore) (t : UInt64) :
    (s.relativeTimeslot t).2.relativeTimeslot t = s.relativeTimeslot t := by
  unfold relativeTimeslot
  split <;> simp_all

/-- `lookup_relative` returns the epoch `bin` slots ahead, and leaves the timeslots. -/
theorem lookupRelative_epoch {index bin : UInt32} {enqueue : Bool} {r : Bool × ℕ}
    (h : s.lookupRelative SIZE N_EPOCHS index bin enqueue = some (r, s')) :
    r.2 = s.epoch N_EPOCHS bin ∧ s'.currentTimeslot = s.currentTimeslot ∧
      s'.tToTimeslot = s.tToTimeslot := by
  unfold lookupRelative at h
  split at h
  · simp only at h
    split at h <;> (cases h; exact ⟨rfl, rfl, rfl⟩)
  · cases h

/-- `lookup_relative` writes links and heads only. -/
theorem lookupRelative_currentQueue {index bin : UInt32} {enqueue : Bool} {r : Bool × ℕ}
    (h : s.lookupRelative SIZE N_EPOCHS index bin enqueue = some (r, s')) :
    s'.currentQueue = s.currentQueue := by
  unfold lookupRelative at h
  split at h
  · simp only at h
    split at h <;> (cases h; rfl)
  · cases h

/-- The `i16` difference of two `u16` timeslots, the first read as signed and the second as
unsigned, is their difference modulo `2 ^ 16`. -/
theorem toBitVec_relative (x y : UInt16) :
    (x.toInt16.toInt32 - y.toUInt32.toInt32).toInt16.toBitVec = (x - y).toBitVec := by
  rw [Int32.toBitVec_toInt16, Int32.toBitVec_sub]
  simp only [Int16.toBitVec_toInt32, UInt16.toBitVec_toInt16, UInt32.toBitVec_toInt32,
    UInt16.toBitVec_toUInt32, UInt16.toBitVec_sub]
  rw [BitVec.signExtend_eq_setWidth_of_le _ (by decide)]
  apply BitVec.eq_of_toNat_eq
  simp only [BitVec.toNat_setWidth, BitVec.toNat_sub, BitVec.toNat_signExtend]
  split <;> omega

theorem relative_eq_zero (x y : UInt16) :
    (x.toInt16.toInt32 - y.toUInt32.toInt32).toInt16 = 0 ↔ x = y := by
  rw [← Int16.toBitVec_inj, toBitVec_relative, Int16.toBitVec_zero, ← UInt16.toBitVec_zero,
    UInt16.toBitVec_inj, sub_eq_zero]

/-- `relative_timeslot(t)` is `0` exactly in the current timeslot, which a store without one
takes from `t`. -/
theorem relativeTimeslot_fst_eq_zero (s : MetricStore) (t : UInt64) :
    (s.relativeTimeslot t).1 = 0 ↔ s.currentTimeslot = none ∨
      s.currentTimeslot = some (FastDiv.divide t s.tToTimeslot).toUInt16 := by
  unfold relativeTimeslot
  cases hc : s.currentTimeslot with
  | none =>
    simp only [Option.isNone_none, if_true, Option.getD_some, true_or, iff_true]
    exact (relative_eq_zero _ _).2 rfl
  | some c =>
    simp only [hc, Option.isNone_some, Bool.false_eq_true, if_false, Option.getD_some,
      relative_eq_zero, reduceCtorEq, false_or, Option.some.injEq]
    exact eq_comm

/-- A store without a current timeslot takes that of `t`. -/
theorem relativeTimeslot_of_none (hs : s.currentTimeslot = none) (t : UInt64) :
    (s.relativeTimeslot t).2 =
      { s with currentTimeslot := some (FastDiv.divide t s.tToTimeslot).toUInt16 } := by
  simp [relativeTimeslot, hs]

/-- `peek` finds nothing in an empty current queue. -/
theorem peek_of_nil (hq : Queue SIZE s s.currentQueue.toNat []) : s.peek SIZE N_EPOCHS = none := by
  have hhead : s.head s.currentQueue.toNat = listEnd SIZE := hq.1
  simp [peek, hhead]

/-- `lookup` with `enqueue` of an index below `SIZE` returns an epoch in whose queue the index
is afterwards, and keeps every index queued where it was. -/
theorem Inv.lookup_enqueue (hSIZE : SIZE ≤ 2 ^ 32 - 2) (hN : 0 < N_EPOCHS)
    (h : Inv SIZE N_EPOCHS s) {index : UInt32} (hi : index.toNat < SIZE) (t : UInt64) :
    ∃ w e s', s.lookup SIZE N_EPOCHS index t true = some ((w, e), s') ∧ e < N_EPOCHS ∧
      Inv SIZE N_EPOCHS s' ∧ s'.next index.toNat e ≠ invalid SIZE ∧
      (∀ j f, j < SIZE → s.next j f ≠ invalid SIZE → s'.next j f ≠ invalid SIZE) ∧
      s'.currentQueue = s.currentQueue := by
  obtain ⟨hnext, -, hcq⟩ := relativeTimeslot_snd s t
  have h₁ := h.relativeTimeslot t
  set s₁ := (s.relativeTimeslot t).2
  set bin := histogramBin (UInt32.ofNat N_EPOCHS) (s.relativeTimeslot t).1.toInt32
  obtain ⟨l, hq⟩ := h₁.queue _ (epoch_lt hN s₁ bin)
  obtain ⟨s', hs', hq', hsame⟩ := lookupRelative_spec hSIZE true hi (histogramBin_lt hN _) hq
  -- the queue of the epoch only gains the index
  have hsub : ∀ j ∈ l, j ∈ if true ∧ index.toNat ∉ l then index.toNat :: l else l := by
    intro j hj
    split <;> simp [hj]
  refine ⟨_, _, s', by rw [lookup_eq, hs'], epoch_lt hN s₁ bin, h₁.of_sameOutside hq' hsame,
    ((hq'.2 _).1 ?_).2, fun j f hj hjf => ?_, hsame.currentQueue.trans hcq⟩
  · split <;> simp_all
  · by_cases hf : f = s₁.epoch N_EPOCHS bin
    · subst hf
      have hjl : j ∈ l := (hq.2 j).2 ⟨hj, by rw [hnext]; exact hjf⟩
      exact ((hq'.2 j).1 (hsub j hjl)).2
    · rw [hsame.next f hf j, hnext]
      exact hjf

/-! ### Runs -/

/-- The calls on a store. -/
inductive Call
  | lookup (index : UInt32) (t : UInt64) (enqueue : Bool)
  | lookupRelative (index bin : UInt32) (enqueue : Bool)
  | peek
  | pop
  | advance

variable (SIZE N_EPOCHS) in
/-- A call that returns, without a failed `assert` or an access out of range, and the store
after it. -/
def Step (s : MetricStore) : Call → MetricStore → Prop
  | .lookup index t enqueue, s' => ∃ r, s.lookup SIZE N_EPOCHS index t enqueue = some (r, s')
  | .lookupRelative index bin enqueue, s' =>
    ∃ r, s.lookupRelative SIZE N_EPOCHS index bin enqueue = some (r, s')
  | .peek, s' => (s.peek SIZE N_EPOCHS).isSome ∧ s' = s
  | .pop, s' => s.pop SIZE N_EPOCHS = some s'
  | .advance, s' => s' = s.advance N_EPOCHS

theorem Step.of_lookupRelative {index bin : UInt32} {enqueue : Bool} {r : Bool × ℕ}
    (h : s.lookupRelative SIZE N_EPOCHS index bin enqueue = some (r, s')) :
    Step SIZE N_EPOCHS s (.lookupRelative index bin enqueue) s' :=
  ⟨r, h⟩

theorem Step.of_pop (h : s.pop SIZE N_EPOCHS = some s') : Step SIZE N_EPOCHS s .pop s' := h

theorem Step.of_peek (h : (s.peek SIZE N_EPOCHS).isSome) : Step SIZE N_EPOCHS s .peek s :=
  ⟨h, rfl⟩

theorem Step.advance : Step SIZE N_EPOCHS s .advance (s.advance N_EPOCHS) := rfl

theorem Step.inv (hSIZE : SIZE ≤ 2 ^ 32 - 2) (hN : 0 < N_EPOCHS) (h : Inv SIZE N_EPOCHS s)
    {c : Call} (hstep : Step SIZE N_EPOCHS s c s') : Inv SIZE N_EPOCHS s' := by
  cases c with
  | lookup index t enqueue =>
    obtain ⟨r, hr⟩ := hstep
    exact h.lookup hSIZE hN hr
  | lookupRelative index bin enqueue =>
    obtain ⟨r, hr⟩ := hstep
    exact h.lookupRelative hSIZE hN hr
  | peek => exact hstep.2 ▸ h
  | pop => exact h.pop hstep
  | advance => exact hstep ▸ h.advance hN

theorem run_new (tToTimeslot : FastDiv) :
    Run (· = new SIZE tToTimeslot) (Step SIZE N_EPOCHS) [] (new SIZE tToTimeslot) :=
  Run.start rfl

theorem inv_of_run (hSIZE : SIZE ≤ 2 ^ 32 - 2) (hN : 0 < N_EPOCHS) {tToTimeslot : FastDiv}
    {calls : List Call} (hrun : Run (· = new SIZE tToTimeslot) (Step SIZE N_EPOCHS) calls s) :
    Inv SIZE N_EPOCHS s :=
  Run.invariant (fun _ hs => hs ▸ inv_new hN tToTimeslot)
    (fun _ _ _ hs hst => hst.inv hSIZE hN hs) hrun

variable (SIZE N_EPOCHS) in
/-- What the store guarantees at a state: every queue holds a list without duplicates;
`lookup_relative` of an index below `SIZE` returns, reports exactly whether the index is in the
queue of its epoch, queues it there once if asked, and leaves the other queues; `lookup` of an
index below `SIZE` returns; and `peek` and `pop` of a current queue with head `a` return `a`
and take exactly `a` off, marking it unqueued. -/
structure Consistent (s : MetricStore) : Prop where
  queue : ∀ e < N_EPOCHS, ∃ l, Queue SIZE s e l ∧ l.Nodup
  lookupRelative : ∀ (index bin : UInt32) (enqueue : Bool) (l : List ℕ), index.toNat < SIZE →
    bin.toNat < N_EPOCHS → Queue SIZE s (s.epoch N_EPOCHS bin) l →
    ∃ s', s.lookupRelative SIZE N_EPOCHS index bin enqueue =
        some ((decide (index.toNat ∈ l), s.epoch N_EPOCHS bin), s') ∧
      Queue SIZE s' (s.epoch N_EPOCHS bin)
        (if enqueue ∧ index.toNat ∉ l then index.toNat :: l else l) ∧
      SameOutside (s.epoch N_EPOCHS bin) s s'
  lookup : ∀ (index : UInt32) (t : UInt64) (enqueue : Bool), index.toNat < SIZE →
    (s.lookup SIZE N_EPOCHS index t enqueue).isSome
  pop : ∀ a l, Queue SIZE s s.currentQueue.toNat (a :: l) →
    s.peek SIZE N_EPOCHS = some a ∧
      ∃ s', s.pop SIZE N_EPOCHS = some s' ∧ Queue SIZE s' s.currentQueue.toNat l ∧
        s'.next a s.currentQueue.toNat = invalid SIZE ∧ SameOutside s.currentQueue.toNat s s'

theorem consistent_of_inv (hSIZE : SIZE ≤ 2 ^ 32 - 2) (hN : 0 < N_EPOCHS)
    (h : Inv SIZE N_EPOCHS s) : Consistent SIZE N_EPOCHS s where
  queue e he := (h.queue e he).imp fun _ hq => ⟨hq, hq.nodup⟩
  lookupRelative _ _ enqueue _ hi hb hq := lookupRelative_spec hSIZE enqueue hi hb hq
  lookup index t enqueue hi := by
    have h' := h.relativeTimeslot t
    obtain ⟨l, hq⟩ := h'.queue _ (epoch_lt hN _ (histogramBin (UInt32.ofNat N_EPOCHS)
      (s.relativeTimeslot t).1.toInt32))
    obtain ⟨s', hs', -⟩ := lookupRelative_spec hSIZE enqueue hi (histogramBin_lt hN _) hq
    rw [lookup_eq, hs']
    rfl
  pop _ _ hq := pop_spec h.currentQueue_lt hq

/-- Along every run of calls on a store with `SIZE ≤ 2^32 - 2`, the store is consistent. -/
theorem queues_consistent_of_run (hSIZE : SIZE ≤ 2 ^ 32 - 2) (hN : 0 < N_EPOCHS)
    {tToTimeslot : FastDiv} {calls : List Call}
    (hrun : Run (· = new SIZE tToTimeslot) (Step SIZE N_EPOCHS) calls s) :
    Consistent SIZE N_EPOCHS s :=
  consistent_of_inv hSIZE hN (inv_of_run hSIZE hN hrun)

/-- Two epochs of four entries: queue 1 and 2 (and 1 again) in the current epoch and 3 in the
next, pop 2, advance, pop 3, advance, and peek at 1. -/
theorem queues_consistent_of_run_four_entries :
    ∃ s, Run (· = new 4 ⟨1, 0⟩) (Step 4 2)
        [.lookupRelative 1 0 true, .lookupRelative 2 0 true, .lookupRelative 1 0 true,
          .lookupRelative 3 1 true, .pop, .advance, .pop, .advance, .peek] s ∧
      Consistent 4 2 s := by
  have hrun : Run (· = new 4 ⟨1, 0⟩) (Step 4 2)
      [.lookupRelative 1 0 true, .lookupRelative 2 0 true, .lookupRelative 1 0 true,
        .lookupRelative 3 1 true, .pop, .advance, .pop, .advance, .peek] _ :=
    ((((((((((run_new ⟨1, 0⟩).snoc (Step.of_lookupRelative rfl)).snoc
      (Step.of_lookupRelative rfl)).snoc (Step.of_lookupRelative rfl)).snoc
      (Step.of_lookupRelative rfl)).snoc (Step.of_pop rfl)).snoc Step.advance).snoc
      (Step.of_pop rfl)).snoc Step.advance).snoc (Step.of_peek rfl))
  exact ⟨_, hrun, queues_consistent_of_run (by decide) (by decide) hrun⟩

end MetricStore

end Util

end OtelEbpf
