import OtelEbpf.Lib.Serial
import OtelEbpf.Platform

/-!
# The reducer's virtual clock

`reducer/util/virtual_clock.cc`: a clock driven by several inputs.  Each input carries the
timeslot of the last timestamp it was updated with (`timestamp / divider`, kept to 16 bits);
the clock has a timeslot of its own, unset until every input has one.  An input may be updated
only while it sits in the clock's timeslot (`can_update`), and only forward; the clock
advances once every input has moved past it, by the least advance of its inputs.

Timeslots are 16-bit serial numbers (`Lib/Serial`): the code compares them by their
difference read as an `s16`.

* `update_of_canUpdate` : an update of an input the clock allows either fails with `-EINVAL`
  (the timestamp is in an earlier timeslot) or sets the input to the timestamp's timeslot.
* `advance_cases` : `advance` initialises the clock, or moves it forward by the least advance
  of the inputs, which is positive and less than `2 ^ 15`, or leaves it.
-/

namespace OtelEbpf

namespace Reducer

/-- `fast_div` built from a known multiplier and shift (the constructor from a `double` that
computes them is not modelled). -/
structure FastDiv where
  mul : UInt32
  shift : UInt32
  deriving DecidableEq, Repr

/-- `operator/(uint64_t x, const fast_div &divisor)`: multiply by `mul` in 64 bits, shift
right by `shift`, and keep the low 32 bits. -/
def FastDiv.div (x : UInt64) (d : FastDiv) : UInt32 :=
  ((x * d.mul.toUInt64) >>> d.shift.toUInt64).toUInt32

/-- The timeslot of a timestamp: `const timeslot_t timeslot = timestamp / divider_`, which
keeps the low 16 bits of the quotient. -/
def timeslotOf (d : FastDiv) (timestamp : UInt64) : UInt16 := (FastDiv.div timestamp d).toUInt16

/-- `VirtualClock`: the timeslot of each input (`nullopt` until its first update), the divider
of timestamps into timeslots, and the clock's own timeslot (`nullopt` until initialised). -/
structure VirtualClock where
  inputs : List (Option UInt16)
  divider : FastDiv
  currentTimeslot : Option UInt16

namespace VirtualClock

/-- The constructor: no inputs and no timeslot. -/
def new (divider : FastDiv) : VirtualClock := ⟨[], divider, none⟩

/-- `VirtualClock::add_inputs`: `n` more inputs, without a timeslot. -/
def addInputs (c : VirtualClock) (n : ℕ) : VirtualClock :=
  { c with inputs := c.inputs ++ List.replicate n none }

/-- `VirtualClock::n_inputs`. -/
def nInputs (c : VirtualClock) : ℕ := c.inputs.length

/-- `inputs_.at(input_index)`; the callers keep `input_index < n_inputs()`, as the header
asks. -/
def input (c : VirtualClock) (i : ℕ) : Option UInt16 := c.inputs.getD i none

/-- `VirtualClock::is_current`. -/
def isCurrent (c : VirtualClock) (i : ℕ) : Bool :=
  c.currentTimeslot.isSome && c.input i == c.currentTimeslot

/-- `VirtualClock::can_update`. -/
def canUpdate (c : VirtualClock) (i : ℕ) : Bool := c.input i == c.currentTimeslot

/-- The clock with the timeslot of input `i` set to `x`. -/
def setInput (c : VirtualClock) (i : ℕ) (x : UInt16) : VirtualClock :=
  { c with inputs := c.inputs.set i (some x) }

/-- `VirtualClock::update`: the clock afterwards and the result, `0`, `-EINVAL` or `-EPERM`. -/
def update (c : VirtualClock) (i : ℕ) (timestamp : UInt64) : VirtualClock × ℤ :=
  if c.input i ≠ c.currentTimeslot then (c, -EPERM)
  else
    let timeslot := timeslotOf c.divider timestamp
    match c.input i with
    | some x =>
      -- `(timeslot_diff_t)timeslot - *input.timeslot`, stored in an `s16`
      let timeslotDiff := toS16 (signed16 timeslot - x.toNat)
      if 0 ≤ timeslotDiff then
        (c.setInput i (UInt16.ofInt (x.toNat + timeslotDiff)), 0)
      else (c, -EINVAL)
    | none => (c.setInput i timeslot, 0)

/-- The timeslots of the inputs, or `nullopt` when one of them has none: the loops of
`earliest_input_timeslot` and `min_input_advance` return at such an input. -/
def inputTimeslots (inputs : List (Option UInt16)) : Option (List UInt16) :=
  if inputs.all Option.isSome then some (inputs.filterMap id) else none

/-- `VirtualClock::min_input_advance` for the clock's timeslot `current`: the least advance
of the inputs over it, as an `s16`.  The loop keeps the running minimum, as `List.min?`
folds. -/
def minInputAdvance (inputs : List (Option UInt16)) (current : UInt16) : Option ℤ :=
  (inputTimeslots inputs).bind fun xs => (xs.map fun x => toS16 (signed16 x - current.toNat)).min?

/-- `VirtualClock::earliest_input_timeslot`: the least timeslot `m` of the inputs, moved back
by the least `s16` difference of an input over it (negative when the timeslots wrap past
`2 ^ 16`).  With no inputs the C code dereferences an empty `optional`; the model returns
`nullopt` there. -/
def earliestInputTimeslot (inputs : List (Option UInt16)) : Option UInt16 :=
  (inputTimeslots inputs).bind fun xs => xs.min?.map fun m =>
    UInt16.ofInt (m.toNat + ((xs.map fun x => toS16 (signed16 x - m.toNat)).min?.getD 0))

/-- `VirtualClock::advance`: the clock afterwards, and whether it advanced. -/
def advance (c : VirtualClock) : VirtualClock × Bool :=
  match c.currentTimeslot with
  | some current =>
    let advanceSlots := (minInputAdvance c.inputs current).getD 0
    if 0 < advanceSlots then
      ({ c with currentTimeslot := some (UInt16.ofInt (current.toNat + advanceSlots)) }, true)
    else (c, false)
  | none => ({ c with currentTimeslot := earliestInputTimeslot c.inputs }, false)

/-! ### Small lemmas -/

variable {c : VirtualClock}

theorem canUpdate_iff {i : ℕ} : c.canUpdate i = true ↔ c.input i = c.currentTimeslot := by
  simp [canUpdate]

theorem isCurrent_iff {i : ℕ} :
    c.isCurrent i = true ↔ ∃ x, c.currentTimeslot = some x ∧ c.input i = some x := by
  unfold isCurrent
  cases h : c.currentTimeslot with
  | none => simp
  | some x => simp

@[simp] theorem divider_setInput (i : ℕ) (x : UInt16) : (c.setInput i x).divider = c.divider :=
  rfl

@[simp] theorem currentTimeslot_setInput (i : ℕ) (x : UInt16) :
    (c.setInput i x).currentTimeslot = c.currentTimeslot := rfl

@[simp] theorem length_inputs_setInput (i : ℕ) (x : UInt16) :
    (c.setInput i x).inputs.length = c.inputs.length := List.length_set

theorem input_setInput_self {i : ℕ} (h : i < c.inputs.length) (x : UInt16) :
    (c.setInput i x).input i = some x := by
  simp [setInput, input, List.getD_eq_getElem?_getD, h]

theorem input_setInput_of_ne {i j : ℕ} (h : j ≠ i) (x : UInt16) :
    (c.setInput i x).input j = c.input j := by
  simp [setInput, input, List.getD_eq_getElem?_getD, Ne.symm h]

/-- Past the last input, `input` finds none. -/
theorem input_of_length_le {i : ℕ} (h : c.inputs.length ≤ i) : c.input i = none := by
  simp [input, List.getD_eq_getElem?_getD, List.getElem?_eq_none h]

/-- An input of an index in range is one of the inputs. -/
theorem input_mem {i : ℕ} (h : i < c.inputs.length) : c.input i ∈ c.inputs := by
  simp only [input, List.getD_eq_getElem?_getD, List.getElem?_eq_getElem h, Option.getD_some]
  exact List.getElem_mem h

/-! ### `update` -/

/-- **What an allowed update does.**  When the input sits in the clock's timeslot, `update`
either refuses a timestamp of an earlier timeslot with `-EINVAL` and changes nothing, or sets
the input to the timestamp's timeslot and returns `0`. -/
theorem update_of_canUpdate {i : ℕ} (t : UInt64) (h : c.canUpdate i = true) :
    (c.update i t = (c, -EINVAL) ∧ ∃ x, c.input i = some x ∧
        signed16 (timeslotOf c.divider t - x) < 0) ∨
      c.update i t = (c.setInput i (timeslotOf c.divider t), 0) := by
  rw [canUpdate_iff] at h
  unfold update
  rw [if_neg (not_not.2 h)]
  dsimp only
  split
  · rename_i x hx
    rw [Serial.toS16_signed16_sub]
    split
    · rename_i hle
      right
      rw [Serial.ofInt_add_signed16_sub]
    · rename_i hlt
      left
      exact ⟨rfl, x, hx, Int.lt_of_not_ge hlt⟩
  · right
    rfl

/-- The first update of an input, on a clock without a timeslot, sets it. -/
theorem update_of_none {i : ℕ} (t : UInt64) (hi : c.input i = none)
    (hc : c.currentTimeslot = none) : c.update i t = (c.setInput i (timeslotOf c.divider t), 0) := by
  unfold update
  rw [if_neg (by rw [hi, hc]; exact not_not.2 rfl)]
  dsimp only
  rw [hi]

/-- An update of an input in the clock's timeslot `x` moves it forward, or refuses a timestamp
of a timeslot behind it. -/
theorem update_of_some {i : ℕ} {x : UInt16} (t : UInt64) (hi : c.input i = some x)
    (hc : c.currentTimeslot = some x) :
    (signed16 (timeslotOf c.divider t - x) < 0 ∧ c.update i t = (c, -EINVAL)) ∨
      (0 ≤ signed16 (timeslotOf c.divider t - x) ∧
        c.update i t = (c.setInput i (timeslotOf c.divider t), 0)) := by
  unfold update
  rw [if_neg (by rw [hi, hc]; exact not_not.2 rfl)]
  dsimp only
  rw [hi]
  dsimp only
  rw [Serial.toS16_signed16_sub]
  by_cases hle : 0 ≤ signed16 (timeslotOf c.divider t - x)
  · right
    rw [if_pos hle, Serial.ofInt_add_signed16_sub]
    exact ⟨hle, rfl⟩
  · left
    rw [if_neg hle]
    exact ⟨Int.lt_of_not_ge hle, rfl⟩

/-- An update of an input the clock does not allow is refused with `-EPERM`. -/
theorem update_of_not_canUpdate {i : ℕ} (t : UInt64) (h : c.canUpdate i = false) :
    c.update i t = (c, -EPERM) := by
  have h' : c.input i ≠ c.currentTimeslot := by simpa [canUpdate] using h
  unfold update
  exact if_pos h'

/-- **What `update` returns** on a clock without a timeslot: `-EPERM` exactly for an input that
has one, and otherwise `0`, with the input set to the timestamp's timeslot. -/
theorem update_of_unset {i : ℕ} (t : UInt64) (hc : c.currentTimeslot = none)
    (hi : i < c.inputs.length) :
    ((c.update i t).2 = -EPERM ↔ (c.input i).isSome) ∧
      (c.input i = none → (c.update i t).2 = 0 ∧
        (c.update i t).1.input i = some (timeslotOf c.divider t)) := by
  cases hx : c.input i with
  | none =>
    rw [update_of_none t hx hc]
    exact ⟨by simp [EPERM], fun _ => ⟨rfl, input_setInput_self hi _⟩⟩
  | some x =>
    have hcan : c.canUpdate i = false := by simp [canUpdate, hx, hc]
    rw [update_of_not_canUpdate t hcan]
    simp

/-- **What `update` returns** on a clock with a timeslot `x`: `-EPERM` exactly for an input
not in that timeslot, `-EINVAL` exactly for a timestamp of a timeslot behind it. -/
theorem update_snd_of_some {i : ℕ} {x : UInt16} (t : UInt64) (hc : c.currentTimeslot = some x) :
    ((c.update i t).2 = -EPERM ↔ c.input i ≠ some x) ∧
      ((c.update i t).2 = -EINVAL ↔
        c.input i = some x ∧ signed16 (timeslotOf c.divider t - x) < 0) := by
  by_cases hi : c.input i = some x
  · rcases update_of_some t hi hc with ⟨hlt, hu⟩ | ⟨hle, hu⟩
    · rw [hu]
      simp [hi, hlt, EPERM, EINVAL]
    · rw [hu]
      simp [hi, EPERM, EINVAL, Int.not_lt.2 hle]
  · have hcan : c.canUpdate i = false := by simpa [canUpdate, hc] using hi
    rw [update_of_not_canUpdate t hcan]
    simp [hi, EPERM, EINVAL]

/-- `update` changes an input and nothing else. -/
theorem update_eq_or (i : ℕ) (t : UInt64) :
    (c.update i t).1 = c ∨ ∃ x, (c.update i t).1 = c.setInput i x := by
  cases h : c.canUpdate i
  · rw [update_of_not_canUpdate t h]
    exact Or.inl rfl
  · rcases update_of_canUpdate t h with ⟨he, -⟩ | he
    · rw [he]
      exact Or.inl rfl
    · rw [he]
      exact Or.inr ⟨_, rfl⟩

@[simp] theorem divider_update (i : ℕ) (t : UInt64) : (c.update i t).1.divider = c.divider := by
  rcases update_eq_or i t with h | ⟨x, h⟩ <;> rw [h]
  rfl

@[simp] theorem currentTimeslot_update (i : ℕ) (t : UInt64) :
    (c.update i t).1.currentTimeslot = c.currentTimeslot := by
  rcases update_eq_or i t with h | ⟨x, h⟩ <;> rw [h]
  rfl

@[simp] theorem length_inputs_update (i : ℕ) (t : UInt64) :
    (c.update i t).1.inputs.length = c.inputs.length := by
  rcases update_eq_or i t with h | ⟨x, h⟩ <;> rw [h]
  exact length_inputs_setInput i x

/-! ### `advance` -/

/-- An input of the clock is the input of one of its indices. -/
theorem mem_inputs_iff {x : Option UInt16} :
    x ∈ c.inputs ↔ ∃ i, i < c.inputs.length ∧ c.input i = x := by
  rw [List.mem_iff_getElem]
  constructor
  · rintro ⟨i, hi, rfl⟩
    exact ⟨i, hi, by simp [input, List.getD_eq_getElem?_getD, hi]⟩
  · rintro ⟨i, hi, rfl⟩
    exact ⟨i, hi, by simp [input, List.getD_eq_getElem?_getD, hi]⟩

/-- With every input given a timeslot, the loops see all of them. -/
theorem inputTimeslots_of_isSome {inputs : List (Option UInt16)}
    (h : ∀ x ∈ inputs, x.isSome = true) : inputTimeslots inputs = some (inputs.filterMap id) := by
  unfold inputTimeslots
  rw [if_pos (List.all_eq_true.2 h)]

theorem mem_inputTimeslots {inputs : List (Option UInt16)} {xs : List UInt16}
    (h : inputTimeslots inputs = some xs) {x : UInt16} : x ∈ xs ↔ some x ∈ inputs := by
  unfold inputTimeslots at h
  split at h
  · cases h
    simp
  · cases h

/-- The loops see timeslots only when every input has one. -/
theorem isSome_of_inputTimeslots {inputs : List (Option UInt16)} {xs : List UInt16}
    (h : inputTimeslots inputs = some xs) : ∀ x ∈ inputs, x.isSome = true := by
  unfold inputTimeslots at h
  split at h
  · rename_i hall
    exact List.all_eq_true.1 hall
  · cases h

/-- The least advance is the advance of one of the inputs, and no input advances less. -/
theorem minInputAdvance_spec {inputs : List (Option UInt16)} {current : UInt16} {a : ℤ}
    (h : minInputAdvance inputs current = some a) :
    (∃ x, some x ∈ inputs ∧ signed16 (x - current) = a) ∧
      ∀ x, some x ∈ inputs → a ≤ signed16 (x - current) := by
  unfold minInputAdvance at h
  obtain ⟨xs, hxs, hmin⟩ := Option.bind_eq_some_iff.1 h
  rw [List.min?_eq_some_iff] at hmin
  obtain ⟨hmem, hle⟩ := hmin
  refine ⟨?_, fun x hx => ?_⟩
  · obtain ⟨x, hx, rfl⟩ := List.mem_map.1 hmem
    exact ⟨x, (mem_inputTimeslots hxs).1 hx, (Serial.toS16_signed16_sub x current).symm⟩
  · have := hle _ (List.mem_map_of_mem (f := fun x => toS16 (signed16 x - current.toNat))
      ((mem_inputTimeslots hxs).2 hx))
    rwa [Serial.toS16_signed16_sub] at this

/-- With every input given a timeslot, and at least one input, there is a least advance. -/
theorem minInputAdvance_isSome {inputs : List (Option UInt16)} (current : UInt16)
    (h : ∀ x ∈ inputs, x.isSome = true) (hne : inputs ≠ []) :
    ∃ a, minInputAdvance inputs current = some a := by
  obtain ⟨x, hx⟩ := List.exists_mem_of_ne_nil inputs hne
  obtain ⟨t, rfl⟩ := Option.isSome_iff_exists.1 (h x hx)
  have hne' : (inputs.filterMap id).map (fun x => toS16 (signed16 x - current.toNat)) ≠ [] := by
    rw [ne_eq, List.map_eq_nil_iff]
    exact List.ne_nil_of_mem (List.mem_filterMap.2 ⟨_, hx, rfl⟩)
  unfold minInputAdvance
  rw [inputTimeslots_of_isSome h, Option.bind_some]
  exact Option.isSome_iff_exists.1 (List.isSome_min?_iff.2 hne')

/-- **The earliest timeslot is the circular minimum.**  When the timeslots `xs` of the inputs
all lie in one window from a base `b`, `earliest_input_timeslot` returns one of them, and every
input is at or ahead of it.  The plain minimum `m` the first loop finds need not be it (the
window may wrap past `2 ^ 16`); the second loop moves `m` back to the input of least lead. -/
theorem earliestInputTimeslot_of_window {inputs : List (Option UInt16)} {xs : List UInt16}
    (hxs : inputTimeslots inputs = some xs) (hne : xs ≠ []) {b : UInt16}
    (hb : ∀ x ∈ xs, 0 ≤ signed16 (x - b)) :
    ∃ e, earliestInputTimeslot inputs = some e ∧ e ∈ xs ∧ ∀ x ∈ xs, 0 ≤ signed16 (x - e) := by
  obtain ⟨m, hm⟩ := Option.isSome_iff_exists.1 (List.isSome_min?_iff.2 hne)
  have hmx : m ∈ xs := List.min?_mem hm
  -- the second loop's minimum is the lead over `m` of some input `e`
  have hne₂ : xs.map (fun x => toS16 (signed16 x - m.toNat)) ≠ [] := by simpa using hne
  obtain ⟨a, ha⟩ := Option.isSome_iff_exists.1 (List.isSome_min?_iff.2 hne₂)
  obtain ⟨hamem, hale⟩ := List.min?_eq_some_iff.1 ha
  obtain ⟨e, he, rfl⟩ := List.mem_map.1 hamem
  refine ⟨e, ?_, he, fun x hx => ?_⟩
  · unfold earliestInputTimeslot
    rw [hxs, Option.bind_some, hm, Option.map_some, ha, Option.getD_some,
      Serial.toS16_signed16_sub, Serial.ofInt_add_signed16_sub]
  · -- in the window, leads over `m` order the inputs as leads over `b` do
    have hle := hale _ (List.mem_map_of_mem (f := fun x => toS16 (signed16 x - m.toNat)) hx)
    simp only [Serial.toS16_signed16_sub] at hle
    rw [Serial.signed16_sub_of_window (hb x hx) (hb m hmx),
      Serial.signed16_sub_of_window (hb e he) (hb m hmx)] at hle
    rw [Serial.signed16_sub_of_window (hb x hx) (hb e he)]
    omega

/-- **What `advance` does.**  On a clock without a timeslot it takes the earliest timeslot of
the inputs (or stays without one).  On a clock with a timeslot `c` it either stays, or moves
to `c + a` for the least advance `a` of the inputs, which is positive; `a` is then below
`2 ^ 15`, every input is at least `a` ahead of `c`, and one input is exactly at `c + a`. -/
theorem advance_cases (c : VirtualClock) :
    (c.currentTimeslot = none ∧
        c.advance.1 = { c with currentTimeslot := earliestInputTimeslot c.inputs }) ∨
      c.advance.1 = c ∨
      ∃ cur a, c.currentTimeslot = some cur ∧ minInputAdvance c.inputs cur = some a ∧ 0 < a ∧
        c.advance.1 = { c with currentTimeslot := some (UInt16.ofInt (cur.toNat + a)) } := by
  unfold advance
  split
  · rename_i cur hcur
    dsimp only
    split
    · rename_i hpos
      right; right
      cases hmin : minInputAdvance c.inputs cur with
      | none =>
        rw [hmin] at hpos
        exact absurd hpos (Int.lt_irrefl 0)
      | some a =>
        rw [hmin] at hpos
        exact ⟨cur, a, hcur, hmin, hpos, rfl⟩
    · right; left
      rfl
  · rename_i hcur
    left
    exact ⟨hcur, rfl⟩

/-- On a clock without a timeslot, `advance` takes the earliest timeslot of the inputs and
returns `false`. -/
theorem advance_of_unset (h : c.currentTimeslot = none) :
    c.advance = ({ c with currentTimeslot := earliestInputTimeslot c.inputs }, false) := by
  rw [advance, h]

/-- There is an earliest timeslot exactly when there are inputs and each has a timeslot. -/
theorem earliestInputTimeslot_isSome_iff {inputs : List (Option UInt16)} :
    (earliestInputTimeslot inputs).isSome ↔ inputs ≠ [] ∧ ∀ x ∈ inputs, x.isSome = true := by
  by_cases hall : ∀ x ∈ inputs, x.isSome = true
  · have hne : inputs.filterMap id ≠ [] ↔ inputs ≠ [] := by
      constructor
      · rintro hf rfl
        exact hf rfl
      · intro hne
        obtain ⟨x, hx⟩ := List.exists_mem_of_ne_nil inputs hne
        obtain ⟨t, rfl⟩ := Option.isSome_iff_exists.1 (hall x hx)
        exact List.ne_nil_of_mem (List.mem_filterMap.2 ⟨_, hx, rfl⟩)
    unfold earliestInputTimeslot
    rw [inputTimeslots_of_isSome hall, Option.bind_some, Option.isSome_map,
      List.isSome_min?_iff, hne]
    exact ⟨fun h => ⟨h, hall⟩, And.left⟩
  · have hnone : inputTimeslots inputs = none := by
      unfold inputTimeslots
      rw [if_neg (by simpa using hall)]
    unfold earliestInputTimeslot
    rw [hnone]
    simp only [Option.bind_none, Option.isSome_none, Bool.false_eq_true, false_iff, not_and]
    exact fun _ => hall

/-- When every input is ahead of the clock's timeslot, `advance` moves it by the least
advance `a` and returns `true`. -/
theorem advance_of_pos {cur : UInt16} {a : ℤ} (h : c.currentTimeslot = some cur)
    (ha : minInputAdvance c.inputs cur = some a) (hpos : 0 < a) :
    c.advance = ({ c with currentTimeslot := some (UInt16.ofInt (cur.toNat + a)) }, true) := by
  rw [advance, h]
  dsimp only
  rw [ha, Option.getD_some, if_pos hpos]

/-- Otherwise `advance` leaves a clock with a timeslot alone and returns `false`. -/
theorem advance_of_not_pos {cur : UInt16} (h : c.currentTimeslot = some cur)
    (hle : ¬ 0 < (minInputAdvance c.inputs cur).getD 0) : c.advance = (c, false) := by
  rw [advance, h]
  exact if_neg hle

/-- **What `advance` returns** on a clock with a timeslot `cur` whose inputs all have one:
`true` exactly when every input is ahead of `cur`. -/
theorem advance_snd_iff {cur : UInt16} (hc : c.currentTimeslot = some cur)
    (hset : ∀ x ∈ c.inputs, x.isSome = true) (hne : c.inputs ≠ []) :
    c.advance.2 = true ↔ ∀ x, some x ∈ c.inputs → 0 < signed16 (x - cur) := by
  obtain ⟨a, ha⟩ := minInputAdvance_isSome cur hset hne
  obtain ⟨⟨x₀, hx₀, hax₀⟩, hle⟩ := minInputAdvance_spec ha
  by_cases hpos : 0 < a
  · rw [advance_of_pos hc ha hpos]
    simp only [true_iff]
    intro x hx
    exact Int.lt_of_lt_of_le hpos (hle x hx)
  · rw [advance_of_not_pos hc (by rwa [ha, Option.getD_some])]
    simp only [Bool.false_eq_true, false_iff, not_forall]
    exact ⟨x₀, hx₀, by omega⟩

/-- When `advance` returns `true` it has moved the clock to the input of least lead. -/
theorem advance_of_snd {cur : UInt16} (hc : c.currentTimeslot = some cur)
    (h : c.advance.2 = true) :
    ∃ x, some x ∈ c.inputs ∧ (∀ y, some y ∈ c.inputs → signed16 (x - cur) ≤ signed16 (y - cur)) ∧
      c.advance.1.currentTimeslot = some (UInt16.ofInt (cur.toNat + signed16 (x - cur))) := by
  cases ha : minInputAdvance c.inputs cur with
  | none =>
    rw [advance_of_not_pos hc (by rw [ha]; exact Int.lt_irrefl 0)] at h
    cases h
  | some a =>
    obtain ⟨⟨x₀, hx₀, rfl⟩, hle⟩ := minInputAdvance_spec ha
    by_cases hpos : 0 < signed16 (x₀ - cur)
    · rw [advance_of_pos hc ha hpos]
      exact ⟨x₀, hx₀, hle, rfl⟩
    · rw [advance_of_not_pos hc (by rwa [ha, Option.getD_some])] at h
      cases h

@[simp] theorem divider_advance : c.advance.1.divider = c.divider := by
  rcases advance_cases c with ⟨-, h⟩ | h | ⟨cur, a, -, -, -, h⟩ <;> rw [h]

@[simp] theorem inputs_advance : c.advance.1.inputs = c.inputs := by
  rcases advance_cases c with ⟨-, h⟩ | h | ⟨cur, a, -, -, -, h⟩ <;> rw [h]

end VirtualClock

end Reducer

end OtelEbpf
