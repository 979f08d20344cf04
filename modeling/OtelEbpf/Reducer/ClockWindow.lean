import Mathlib
import OtelEbpf.Reducer.VirtualClock
import OtelEbpf.Lib.Run

/-!
# The half-window invariant of the virtual clock

A user of `VirtualClock` calls `update(i, timestamp)` and `advance()` in any order.  The clock
is meant to sit at the circular minimum of its inputs: initialised at the earliest input, it
never gets ahead of an input, and it moves forward by the least lead of its inputs once all
of them have moved on.  Whether "earliest" means anything on a circle of `2 ^ 16` timeslots
depends on the first timeslots of the inputs: when they all lie in one window of `2 ^ 15`
slots (`Observed.Windowed`), `earliest_input_timeslot` finds the input every other one is at or
ahead of, and from then on every input stays within half the circle ahead of the clock.

* `Observed.inv_of_run` : along every run whose first timeslots are windowed, the clock's
  initial timeslot is the circular minimum of the first timeslots and every input is at most
  `2 ^ 15 - 1` ahead of the clock.
* `tracks_circular_minimum` : and then `update` refuses exactly what it should, and `advance`
  moves exactly when every input is ahead, by the least lead.
* `pairwise_close_first_timeslots_behind` : three first timeslots pairwise less than `2 ^ 15`
  apart, spread around the whole circle, initialise the clock ahead of one of its inputs.
-/

namespace OtelEbpf

namespace Reducer

/-- A call a user of the clock makes. -/
inductive ClockCall
  | update (i : ℕ) (timestamp : UInt64)
  | advance

/-- A virtual clock with two ghosts: the first timeslot each input was given, and the timeslot
the clock was initialised to. -/
structure Observed where
  clock : VirtualClock
  first : ℕ → Option UInt16
  initial : Option UInt16

namespace Observed

/-- The ghosts after a call that left the clock `clock`: what they recorded stays, and an
input's first timeslot, or the clock's, is recorded when it appears. -/
def observe (o : Observed) (clock : VirtualClock) : Observed :=
  ⟨clock, fun j => (o.first j).or (clock.input j), o.initial.or clock.currentTimeslot⟩

/-- A clock of `n` inputs, none of them updated yet. -/
def Init (n : ℕ) (o : Observed) : Prop :=
  ∃ d, o = ⟨(VirtualClock.new d).addInputs n, fun _ => none, none⟩

/-- One call on the clock, `update` of an input it has. -/
inductive Step : Observed → ClockCall → Observed → Prop
  | update {o : Observed} {i : ℕ} {t : UInt64} (h : i < o.clock.inputs.length) :
      Step o (.update i t) (o.observe (o.clock.update i t).1)
  | advance {o : Observed} : Step o .advance (o.observe o.clock.advance.1)

/-- A clock of `n` inputs with the divider `d`, before any call. -/
def start (d : FastDiv) (n : ℕ) : Observed :=
  ⟨(VirtualClock.new d).addInputs n, fun _ => none, none⟩

/-- The clock and its ghosts after one call. -/
def call (o : Observed) : ClockCall → Observed
  | .update i t => o.observe (o.clock.update i t).1
  | .advance => o.observe o.clock.advance.1

/-- The clock and its ghosts after a sequence of calls. -/
def runCalls (o : Observed) (calls : List ClockCall) : Observed := calls.foldl call o

/-- The first timeslots lie in one window from `b`: each at or ahead of `b` by less than
`2 ^ 15`. -/
def WindowFrom (b : UInt16) (o : Observed) : Prop :=
  ∀ j t, o.first j = some t → 0 ≤ signed16 (t - b)

/-- The first timeslots of the inputs lie in one window of `2 ^ 15` slots. -/
def Windowed (o : Observed) : Prop := ∃ b, WindowFrom b o

/-- The clock was initialised at the circular minimum of the first timeslots of the `n`
inputs: at one of them, with every one at or ahead of it. -/
def InitialAtMinimum (n : ℕ) (o : Observed) : Prop :=
  ∃ e, o.initial = some e ∧ (∃ i, i < n ∧ o.first i = some e) ∧
    ∀ i, i < n → ∃ t, o.first i = some t ∧ 0 ≤ signed16 (t - e)

/-- Every one of the `n` inputs has a timeslot, at or ahead of `c`. -/
def AllAhead (n : ℕ) (clock : VirtualClock) (c : UInt16) : Prop :=
  ∀ i, i < n → ∃ t, clock.input i = some t ∧ 0 ≤ signed16 (t - c)

/-- What a run keeps of a clock of `n` inputs.  Before initialisation the inputs are their
first timeslots; after it, the initial timeslot is the circular minimum and every input is
ahead of the clock. -/
structure Inv (n : ℕ) (o : Observed) : Prop where
  length_inputs : o.clock.inputs.length = n
  unset : o.clock.currentTimeslot = none → o.initial = none ∧ ∀ j, o.clock.input j = o.first j
  set : ∀ c, o.clock.currentTimeslot = some c → InitialAtMinimum n o ∧ AllAhead n o.clock c

/-! ### The ghosts -/

variable {n : ℕ} {o : Observed}

@[simp] theorem clock_observe (c : VirtualClock) : (o.observe c).clock = c := rfl

theorem first_observe_of_some {j : ℕ} {t : UInt16} (c : VirtualClock) (h : o.first j = some t) :
    (o.observe c).first j = some t := by
  simp [observe, h]

theorem WindowFrom.of_observe {b : UInt16} {c : VirtualClock} (h : WindowFrom b (o.observe c)) :
    WindowFrom b o :=
  fun j t ht => h j t (first_observe_of_some c ht)

/-- Once the `n` inputs all have first timeslots, and the clock has no more inputs, the ghost
of the first timeslots stays as it is. -/
theorem first_observe_of_all {c : VirtualClock} (hlen : c.inputs.length = n)
    (hall : ∀ i, i < n → ∃ t, o.first i = some t) : (o.observe c).first = o.first := by
  funext j
  rcases Nat.lt_or_ge j n with hj | hj
  · obtain ⟨t, ht⟩ := hall j hj
    rw [first_observe_of_some c ht, ht]
  · simp [observe, VirtualClock.input_of_length_le (hlen ▸ hj)]

/-- Before initialisation: a clock whose inputs were their first timeslots, changed only in
inputs that had none, still has its inputs as first timeslots. -/
theorem inputs_observe {c : VirtualClock} (h : ∀ j, o.clock.input j = o.first j)
    (hc : ∀ j, c.input j = o.clock.input j ∨ o.clock.input j = none) :
    ∀ j, c.input j = (o.observe c).first j := by
  intro j
  simp only [observe]
  rcases hc j with hj | hj
  · rw [hj, h, Option.or_self]
  · rw [← h, hj, Option.none_or]

/-! ### One call keeps the invariant -/

theorem inv_init (h : Init n o) : Inv n o := by
  obtain ⟨d, rfl⟩ := h
  refine ⟨by simp [VirtualClock.new, VirtualClock.addInputs], fun _ => ⟨rfl, fun j => ?_⟩,
    fun c hc => by cases hc⟩
  simp only [VirtualClock.input, VirtualClock.new, VirtualClock.addInputs, List.nil_append,
    List.getD_eq_getElem?_getD, List.getElem?_replicate]
  split <;> rfl

/-- After initialisation, a call that leaves the first timeslots and the inputs' count alone
and every input ahead of the clock keeps the invariant. -/
theorem inv_observe_of_set {c c' : UInt16} {clock : VirtualClock} (h : Inv n o)
    (hc : o.clock.currentTimeslot = some c) (hlen : clock.inputs.length = n)
    (hc' : clock.currentTimeslot = some c') (hahead : AllAhead n clock c') :
    Inv n (o.observe clock) := by
  obtain ⟨⟨e, he, hmem, hle⟩, -⟩ := h.set c hc
  have hfirst : (o.observe clock).first = o.first :=
    first_observe_of_all hlen fun i hi => (hle i hi).imp fun _ ht => ht.1
  have hinitial : (o.observe clock).initial = o.initial := by simp [observe, he]
  refine ⟨hlen, fun hnone => ?_, fun c₁ hc₁ => ?_⟩
  · rw [clock_observe, hc'] at hnone
    cases hnone
  · rw [clock_observe, hc'] at hc₁
    cases hc₁
    exact ⟨⟨e, hinitial.trans he, by rwa [hfirst], by rwa [hfirst]⟩, hahead⟩

/-- A call that leaves the clock as it was keeps the invariant. -/
theorem inv_observe_self (h : Inv n o) : Inv n (o.observe o.clock) := by
  cases hc : o.clock.currentTimeslot with
  | none =>
    obtain ⟨hinit, hinputs⟩ := h.unset hc
    refine ⟨h.length_inputs, fun _ => ⟨?_, inputs_observe hinputs fun j => Or.inl rfl⟩, ?_⟩
    · simp [observe, hinit, hc]
    · intro c hc'
      rw [clock_observe, hc] at hc'
      cases hc'
  | some c => exact inv_observe_of_set h hc h.length_inputs hc (h.set c hc).2

/-- `update` of an input keeps the invariant. -/
theorem inv_update {i : ℕ} (t : UInt64) (h : Inv n o) (hi : i < o.clock.inputs.length) :
    Inv n (o.observe (o.clock.update i t).1) := by
  cases hc : o.clock.currentTimeslot with
  | none =>
    obtain ⟨hinit, hinputs⟩ := h.unset hc
    cases hx : o.clock.input i with
    | none =>
      -- the first update of the input: it gets its first timeslot
      rw [VirtualClock.update_of_none t hx hc]
      refine ⟨by simp [h.length_inputs], fun _ => ⟨?_, inputs_observe hinputs fun j => ?_⟩, ?_⟩
      · simp [observe, hinit, hc]
      rotate_left
      · intro c hc'
        simp [hc] at hc'
      by_cases hji : j = i
      · subst hji
        exact Or.inr hx
      · exact Or.inl (VirtualClock.input_setInput_of_ne hji _)
    | some x =>
      -- an input updated before the clock is initialised is refused
      have hcan : o.clock.canUpdate i = false := by simp [VirtualClock.canUpdate, hx, hc]
      rw [VirtualClock.update_of_not_canUpdate t hcan]
      exact inv_observe_self h
  | some c =>
    have hahead := (h.set c hc).2
    by_cases hx : o.clock.input i = some c
    · rcases VirtualClock.update_of_some t hx hc with ⟨-, hu⟩ | ⟨hle, hu⟩
      · rw [hu]
        exact inv_observe_self h
      · -- the input moves forward from the clock's timeslot
        rw [hu]
        refine inv_observe_of_set h hc (by simp [h.length_inputs]) hc fun j hj => ?_
        by_cases hji : j = i
        · subst hji
          exact ⟨_, VirtualClock.input_setInput_self hi _, hle⟩
        · rw [VirtualClock.input_setInput_of_ne hji]
          exact hahead j hj
    · have hcan : o.clock.canUpdate i = false := by
        simpa [VirtualClock.canUpdate, hc] using hx
      rw [VirtualClock.update_of_not_canUpdate t hcan]
      exact inv_observe_self h

/-- `advance` keeps the invariant when the first timeslots lie in one window: it initialises
the clock at their circular minimum, or moves it by the least lead of the inputs. -/
theorem inv_advance {b : UInt16} (hwin : WindowFrom b o) (h : Inv n o) :
    Inv n (o.observe o.clock.advance.1) := by
  cases hc : o.clock.currentTimeslot with
  | none =>
    obtain ⟨hinit, hinputs⟩ := h.unset hc
    rcases VirtualClock.advance_cases o.clock with ⟨-, ha⟩ | ha | ⟨cur, a, hcur, -, -, -⟩
    · cases he : VirtualClock.earliestInputTimeslot o.clock.inputs with
      | none =>
        -- not every input has a timeslot yet: the clock stays as it is
        have hsame : o.clock.advance.1 = o.clock := by rw [ha, he, ← hc]
        rw [hsame]
        exact inv_observe_self h
      | some e =>
        -- the clock is initialised; its inputs are still their first timeslots
        rw [ha, he]
        obtain ⟨xs, hxs, hmin⟩ := Option.bind_eq_some_iff.1 he
        have hne : xs ≠ [] := by
          rintro rfl
          simp at hmin
        have hsome := VirtualClock.isSome_of_inputTimeslots hxs
        have hfirst : (o.observe { o.clock with currentTimeslot := some e }).first = o.first := by
          funext j
          simp only [observe]
          rw [show ({ o.clock with currentTimeslot := some e } : VirtualClock).input j =
            o.clock.input j from rfl, hinputs, Option.or_self]
        have hinitial : (o.observe { o.clock with currentTimeslot := some e }).initial = some e := by
          simp [observe, hinit]
        -- the timeslot of every input is one of `xs`, and is the input's first timeslot
        have hinput : ∀ j, j < n → ∃ t, o.clock.input j = some t ∧ t ∈ xs := by
          intro j hj
          have hmem := VirtualClock.input_mem (h.length_inputs ▸ hj)
          obtain ⟨t, ht⟩ := Option.isSome_iff_exists.1 (hsome _ hmem)
          exact ⟨t, ht, (VirtualClock.mem_inputTimeslots hxs).2 (ht ▸ hmem)⟩
        have hxfirst : ∀ x ∈ xs, ∃ j, j < n ∧ o.first j = some x := by
          intro x hx
          obtain ⟨j, hj, hjx⟩ :=
            VirtualClock.mem_inputs_iff.1 ((VirtualClock.mem_inputTimeslots hxs).1 hx)
          exact ⟨j, h.length_inputs ▸ hj, (hinputs j).symm.trans hjx⟩
        obtain ⟨e', he', hmem, hle⟩ := VirtualClock.earliestInputTimeslot_of_window hxs hne
          (b := b) fun x hx => by
            obtain ⟨j, -, hj⟩ := hxfirst x hx
            exact hwin j x hj
        rw [he] at he'
        cases he'
        refine ⟨h.length_inputs, fun hnone => ?_, fun c₁ hc₁ => ?_⟩
        · cases hnone
        cases hc₁
        refine ⟨⟨e, hinitial, by rw [hfirst]; exact hxfirst e hmem, ?_⟩, fun j hj => ?_⟩
        · intro j hj
          obtain ⟨t, ht, htx⟩ := hinput j hj
          rw [hfirst]
          exact ⟨t, (hinputs j).symm.trans ht, hle t htx⟩
        · obtain ⟨t, ht, htx⟩ := hinput j hj
          exact ⟨t, ht, hle t htx⟩
    · rw [ha]
      exact inv_observe_self h
    · rw [hc] at hcur
      cases hcur
  | some c =>
    by_cases hpos : 0 < (VirtualClock.minInputAdvance o.clock.inputs c).getD 0
    · -- every input is ahead: the clock moves by the least lead, still behind every input
      obtain ⟨a, ha⟩ : ∃ a, VirtualClock.minInputAdvance o.clock.inputs c = some a := by
        cases hm : VirtualClock.minInputAdvance o.clock.inputs c with
        | none =>
          rw [hm] at hpos
          exact absurd hpos (Int.lt_irrefl 0)
        | some a => exact ⟨a, rfl⟩
      rw [ha, Option.getD_some] at hpos
      rw [VirtualClock.advance_of_pos hc ha hpos]
      refine inv_observe_of_set h hc h.length_inputs rfl fun i hi => ?_
      obtain ⟨t, ht, -⟩ := (h.set c hc).2 i hi
      have hat := (VirtualClock.minInputAdvance_spec ha).2 t
        (ht ▸ VirtualClock.input_mem (h.length_inputs ▸ hi))
      refine ⟨t, ht, ?_⟩
      rw [Serial.signed16_sub_ofInt_add (Int.le_of_lt hpos) hat]
      omega
    · rw [VirtualClock.advance_of_not_pos hc hpos]
      exact inv_observe_self h

theorem WindowFrom.of_step {b : UInt16} {o' : Observed} {e : ClockCall} (hs : Step o e o')
    (hwin : WindowFrom b o') : WindowFrom b o := by
  cases hs with
  | update => exact WindowFrom.of_observe hwin
  | advance => exact WindowFrom.of_observe hwin

/-- **The invariant along a run** whose first timeslots lie in one window. -/
theorem inv_of_run {b : UInt16} {calls : List ClockCall} (hrun : Run (Init n) Step calls o)
    (hwin : WindowFrom b o) : Inv n o := by
  -- induction on the run; the window of the last state is the window of every earlier one
  induction hrun with
  | start hs => exact inv_init hs
  | snoc _ hst ih =>
    have h := ih (hwin.of_step hst)
    cases hst with
    | update hi => exact inv_update _ h hi
    | advance => exact inv_advance (hwin.of_step .advance) h

/-! ### Runs of calls -/

theorem init_start (d : FastDiv) : Init n (start d n) := ⟨d, rfl⟩

theorem length_inputs_call (o : Observed) (e : ClockCall) :
    (o.call e).clock.inputs.length = o.clock.inputs.length := by
  cases e <;> simp [call]

/-- The ghost records nothing past the clock's inputs. -/
theorem first_call_of_length_le {j : ℕ} (e : ClockCall) (hj : o.clock.inputs.length ≤ j)
    (h : o.first j = none) : (o.call e).first j = none := by
  have hj' : (o.call e).clock.inputs.length ≤ j := by rwa [length_inputs_call]
  have hnone := VirtualClock.input_of_length_le hj'
  cases e <;> simp_all [call, observe]

/-- Every call on an input the clock has is a step. -/
theorem step_call (e : ClockCall) (h : ∀ i t, e = .update i t → i < o.clock.inputs.length) :
    Step o e (o.call e) := by
  cases e with
  | update i t => exact .update (h i t rfl)
  | advance => exact .advance

/-- Every sequence of calls on inputs of a clock of `n` inputs is a run, to the state that
`runCalls` computes, with `n` inputs and no first timeslot past them. -/
theorem run_runCalls {o₀ : Observed} {calls : List ClockCall} (h₀ : Init n o₀)
    (hcalls : ∀ i t, ClockCall.update i t ∈ calls → i < n) :
    Run (Init n) Step calls (runCalls o₀ calls) ∧ (runCalls o₀ calls).clock.inputs.length = n ∧
      ∀ j, n ≤ j → (runCalls o₀ calls).first j = none := by
  -- induction on the calls from the end, the way the run grows
  induction calls using List.reverseRecOn with
  | nil =>
    obtain ⟨d, rfl⟩ := h₀
    exact ⟨.start ⟨d, rfl⟩, by simp [runCalls, VirtualClock.new, VirtualClock.addInputs],
      fun _ _ => rfl⟩
  | append_singleton calls e ih =>
    obtain ⟨hrun, hlen, hfirst⟩ := ih fun i t h => hcalls i t (List.mem_append_left _ h)
    have heq : runCalls o₀ (calls ++ [e]) = (runCalls o₀ calls).call e := by
      simp [runCalls, List.foldl_append]
    rw [heq]
    refine ⟨.snoc hrun (step_call e fun i t he => ?_), by rw [length_inputs_call, hlen],
      fun j hj => first_call_of_length_le e (hlen ▸ hj) (hfirst j hj)⟩
    subst he
    exact hlen ▸ hcalls i t (by simp)

/-! ### The invariant read back -/

/-- The initial timeslot is the circular minimum of the first timeslots. -/
theorem Inv.initial_spec {e : UInt16} (h : Inv n o) (he : o.initial = some e) :
    (∃ i, i < n ∧ o.first i = some e) ∧
      ∀ i, i < n → ∃ t, o.first i = some t ∧ 0 ≤ signed16 (t - e) := by
  cases hc : o.clock.currentTimeslot with
  | none =>
    rw [(h.unset hc).1] at he
    cases he
  | some c =>
    obtain ⟨e', he', hmem, hle⟩ := (h.set c hc).1
    rw [he] at he'
    cases he'
    exact ⟨hmem, hle⟩

/-- Before initialisation, a clock that keeps the inputs keeps the first timeslots as they
are, and they are the inputs. -/
theorem Inv.first_observe_of_unset {clock : VirtualClock} (h : Inv n o)
    (hc : o.clock.currentTimeslot = none) (hin : clock.inputs = o.clock.inputs) :
    (o.observe clock).first = o.clock.input := by
  funext j
  simp only [observe]
  rw [show clock.input j = o.clock.input j by simp [VirtualClock.input, hin],
    ← (h.unset hc).2 j, Option.or_self]

/-- **`advance` initialises the clock.**  Before initialisation `advance` returns `false`; it
sets the clock's timeslot exactly when there are inputs and every one has a timeslot, and, when
the first timeslots lie in one window, sets it to the circular minimum of the inputs. -/
theorem Inv.advance_of_unset {b : UInt16} (hwin : WindowFrom b o) (h : Inv n o)
    (hc : o.clock.currentTimeslot = none) :
    o.clock.advance.2 = false ∧
      (o.clock.advance.1.currentTimeslot.isSome ↔
        0 < n ∧ ∀ i, i < n → (o.clock.input i).isSome) ∧
      ∀ e, o.clock.advance.1.currentTimeslot = some e →
        (∃ i, i < n ∧ o.clock.input i = some e) ∧
          ∀ i, i < n → ∃ t, o.clock.input i = some t ∧ 0 ≤ signed16 (t - e) := by
  have ha := VirtualClock.advance_of_unset hc
  refine ⟨by rw [ha], ?_, fun e he => ?_⟩
  · rw [ha]
    simp only
    rw [VirtualClock.earliestInputTimeslot_isSome_iff, ne_eq, ← List.length_eq_zero_iff,
      h.length_inputs, Nat.pos_iff_ne_zero]
    -- every input of the list is the input of an index below `n`
    refine and_congr_right fun _ => ⟨fun hall i hi => ?_, fun hall x hx => ?_⟩
    · exact hall _ (VirtualClock.input_mem (h.length_inputs ▸ hi))
    · obtain ⟨i, hi, rfl⟩ := VirtualClock.mem_inputs_iff.1 hx
      exact hall i (h.length_inputs ▸ hi)
  · -- the invariant after the step says where the clock went
    have hinv := inv_advance hwin h
    obtain ⟨⟨e', he', hmem, hle⟩, -⟩ := hinv.set e he
    have hfirst := h.first_observe_of_unset hc (VirtualClock.inputs_advance (c := o.clock))
    have hinit : (o.observe o.clock.advance.1).initial = some e := by
      simp [observe, (h.unset hc).1, he]
    rw [hinit, Option.some.injEq] at he'
    subst he'
    rw [hfirst] at hmem hle
    exact ⟨hmem, hle⟩

/-- Once initialised, the clock has inputs, and every one of them has a timeslot. -/
theorem Inv.inputs_of_set {c : UInt16} (h : Inv n o) (hc : o.clock.currentTimeslot = some c) :
    (∀ x ∈ o.clock.inputs, x.isSome = true) ∧ o.clock.inputs ≠ [] := by
  obtain ⟨⟨e, -, ⟨i, hi, -⟩, -⟩, hahead⟩ := h.set c hc
  refine ⟨fun x hx => ?_, ?_⟩
  · obtain ⟨j, hj, rfl⟩ := VirtualClock.mem_inputs_iff.1 hx
    obtain ⟨t, ht, -⟩ := hahead j (h.length_inputs ▸ hj)
    simp [ht]
  · rw [← List.length_pos_iff, h.length_inputs]
    omega

/-- Once initialised, a property of the timeslots in the inputs' list is a property of the
timeslot of each of the `n` inputs. -/
theorem Inv.forall_mem_iff {c : UInt16} {P : UInt16 → Prop} (h : Inv n o)
    (hc : o.clock.currentTimeslot = some c) :
    (∀ x, some x ∈ o.clock.inputs → P x) ↔
      ∀ i, i < n → ∃ t, o.clock.input i = some t ∧ P t := by
  constructor
  · intro hP i hi
    obtain ⟨t, ht, -⟩ := (h.set c hc).2 i hi
    exact ⟨t, ht, hP t (ht ▸ VirtualClock.input_mem (h.length_inputs ▸ hi))⟩
  · intro hP x hx
    obtain ⟨j, hj, hjx⟩ := VirtualClock.mem_inputs_iff.1 hx
    obtain ⟨t, ht, hPt⟩ := hP j (h.length_inputs ▸ hj)
    rw [ht] at hjx
    cases hjx
    exact hPt

/-- Once initialised, an `advance` that returns `true` moves the clock forward by the least
lead of the `n` inputs. -/
theorem Inv.advance_by_least_lead {c : UInt16} (h : Inv n o)
    (hc : o.clock.currentTimeslot = some c) (hadv : o.clock.advance.2 = true) :
    ∃ a, (∃ i t, i < n ∧ o.clock.input i = some t ∧ signed16 (t - c) = a) ∧
      (∀ i t, i < n → o.clock.input i = some t → a ≤ signed16 (t - c)) ∧
      o.clock.advance.1.currentTimeslot = some (UInt16.ofInt (c.toNat + a)) := by
  obtain ⟨x, hx, hle, hcur⟩ := VirtualClock.advance_of_snd hc hadv
  obtain ⟨i, hi, hix⟩ := VirtualClock.mem_inputs_iff.1 hx
  refine ⟨signed16 (x - c), ⟨i, x, h.length_inputs ▸ hi, hix, rfl⟩, fun j t hj ht => ?_, hcur⟩
  exact hle t (ht ▸ VirtualClock.input_mem (h.length_inputs ▸ hj))

end Observed

open Observed in
/-- **The virtual clock tracks the circular minimum of its inputs.**  Along every run of
calls on a clock of `n` inputs whose first timeslots lie in one window of `2 ^ 15` slots: the
clock is initialised at the first timeslot every input is at or ahead of; before that, `update`
gives an input without a timeslot the timestamp's and refuses one with a timeslot with
`-EPERM`, and `advance` returns `false` and initialises the clock exactly when every input has
a timeslot, at their circular minimum; from then on every input is between `0` and
`2 ^ 15 - 1` slots ahead of the clock, `update` returns `-EPERM`
exactly for an input not at the clock's timeslot and `-EINVAL` exactly for a timestamp behind
it, and `advance` returns `true` exactly when every input is strictly ahead, moving the clock
forward by the least lead. -/
theorem tracks_circular_minimum {n : ℕ} {calls : List ClockCall} {o : Observed}
    (hrun : Run (Init n) Step calls o) (hwin : o.Windowed) :
    (∀ e, o.initial = some e → (∃ i, i < n ∧ o.first i = some e) ∧
        ∀ i, i < n → ∃ t, o.first i = some t ∧ 0 ≤ signed16 (t - e)) ∧
      (o.clock.currentTimeslot = none →
        (∀ i, i < n → ∀ timestamp : UInt64,
          ((o.clock.update i timestamp).2 = -EPERM ↔ (o.clock.input i).isSome) ∧
          (o.clock.input i = none → (o.clock.update i timestamp).2 = 0 ∧
            (o.clock.update i timestamp).1.input i =
              some (timeslotOf o.clock.divider timestamp))) ∧
        o.clock.advance.2 = false ∧
        (o.clock.advance.1.currentTimeslot.isSome ↔
          0 < n ∧ ∀ i, i < n → (o.clock.input i).isSome) ∧
        ∀ e, o.clock.advance.1.currentTimeslot = some e →
          (∃ i, i < n ∧ o.clock.input i = some e) ∧
            ∀ i, i < n → ∃ t, o.clock.input i = some t ∧ 0 ≤ signed16 (t - e)) ∧
      ∀ c, o.clock.currentTimeslot = some c →
        (∀ i, i < n → ∃ t, o.clock.input i = some t ∧
          0 ≤ signed16 (t - c) ∧ signed16 (t - c) ≤ 2 ^ 15 - 1) ∧
        (∀ i, i < n → ∀ timestamp : UInt64,
          ((o.clock.update i timestamp).2 = -EPERM ↔ o.clock.input i ≠ some c) ∧
          ((o.clock.update i timestamp).2 = -EINVAL ↔
            o.clock.input i = some c ∧ signed16 (timeslotOf o.clock.divider timestamp - c) < 0)) ∧
        (o.clock.advance.2 = true ↔
          ∀ i, i < n → ∃ t, o.clock.input i = some t ∧ 0 < signed16 (t - c)) ∧
        (o.clock.advance.2 = true → ∃ a,
          (∃ i t, i < n ∧ o.clock.input i = some t ∧ signed16 (t - c) = a) ∧
          (∀ i t, i < n → o.clock.input i = some t → a ≤ signed16 (t - c)) ∧
          o.clock.advance.1.currentTimeslot = some (UInt16.ofInt (c.toNat + a))) := by
  obtain ⟨b, hb⟩ := hwin
  have h := inv_of_run hrun hb
  refine ⟨fun e he => h.initial_spec he,
    fun hc => ⟨fun i hi t => VirtualClock.update_of_unset t hc (h.length_inputs ▸ hi),
      h.advance_of_unset hb hc⟩, fun c hc => ⟨fun i hi => ?_,
    fun i _ t => VirtualClock.update_snd_of_some t hc, ?_, h.advance_by_least_lead hc⟩⟩
  · obtain ⟨t, ht, hle⟩ := (h.set c hc).2 i hi
    have := Serial.signed16_lt (t - c)
    exact ⟨t, ht, hle, by omega⟩
  · obtain ⟨hset, hne⟩ := h.inputs_of_set hc
    rw [VirtualClock.advance_snd_iff hc hset hne]
    exact h.forall_mem_iff hc

open Observed in
/-- Two inputs first at timeslots `32757` and `0`, in one window from `0`: once both are
updated, `advance` returns `false` and initialises the clock; after it the clock is at `0`,
and both inputs are at most `2 ^ 15 - 1` ahead of it. -/
theorem tracks_circular_minimum_two_inputs :
    Run (Init 2) Step [.update 0 32757, .update 1 0]
        (runCalls (start ⟨1, 0⟩ 2) [.update 0 32757, .update 1 0]) ∧
      (runCalls (start ⟨1, 0⟩ 2) [.update 0 32757, .update 1 0]).Windowed ∧
      (runCalls (start ⟨1, 0⟩ 2) [.update 0 32757, .update 1 0]).clock.currentTimeslot = none ∧
      (runCalls (start ⟨1, 0⟩ 2) [.update 0 32757, .update 1 0]).clock.advance.2 = false ∧
      (runCalls (start ⟨1, 0⟩ 2)
        [.update 0 32757, .update 1 0]).clock.advance.1.currentTimeslot.isSome ∧
      Run (Init 2) Step [.update 0 32757, .update 1 0, .advance]
        (runCalls (start ⟨1, 0⟩ 2) [.update 0 32757, .update 1 0, .advance]) ∧
      (runCalls (start ⟨1, 0⟩ 2) [.update 0 32757, .update 1 0, .advance]).Windowed ∧
      (runCalls (start ⟨1, 0⟩ 2) [.update 0 32757, .update 1 0, .advance]).clock.currentTimeslot =
        some 0 ∧
      ∀ i, i < 2 → ∃ t, (runCalls (start ⟨1, 0⟩ 2)
          [.update 0 32757, .update 1 0, .advance]).clock.input i = some t ∧
        0 ≤ signed16 (t - 0) ∧ signed16 (t - 0) ≤ 2 ^ 15 - 1 := by
  obtain ⟨hrun₀, -, hpast₀⟩ := @run_runCalls 2 _ [.update 0 32757, .update 1 0]
    (init_start ⟨1, 0⟩) fun i t h => by
      simp at h
      omega
  obtain ⟨hrun, -, hpast⟩ := @run_runCalls 2 _ [.update 0 32757, .update 1 0, .advance]
    (init_start ⟨1, 0⟩) fun i t h => by
      simp at h
      omega
  -- both first timeslots are in the window from `0`, and no input past them has one
  have hwin₀ : (runCalls (start ⟨1, 0⟩ 2) [.update 0 32757, .update 1 0]).Windowed := by
    refine ⟨0, fun j t ht => ?_⟩
    rcases j with _ | _ | j
    · cases ht
      decide
    · cases ht
      decide
    · rw [hpast₀ (j + 2) (by omega)] at ht
      cases ht
  have hwin : (runCalls (start ⟨1, 0⟩ 2) [.update 0 32757, .update 1 0, .advance]).Windowed := by
    refine ⟨0, fun j t ht => ?_⟩
    rcases j with _ | _ | j
    · cases ht
      decide
    · cases ht
      decide
    · rw [hpast (j + 2) (by omega)] at ht
      cases ht
  obtain ⟨-, hadv, hset, -⟩ := (tracks_circular_minimum hrun₀ hwin₀).2.1 rfl
  refine ⟨hrun₀, hwin₀, rfl, hadv, hset.2 ⟨by decide, fun i hi => ?_⟩, hrun, hwin, rfl,
    ((tracks_circular_minimum hrun hwin).2.2 0 rfl).1⟩
  rcases i with _ | _ | i
  · rfl
  · rfl
  · omega

open Observed in
/-- Three first timeslots pairwise less than `2 ^ 15` apart but spread around the whole circle:
the clock is initialised at `43690`, with input `1` at `21845`, behind it. -/
theorem pairwise_close_first_timeslots_behind :
    Run (Init 3) Step [.update 0 0, .update 1 21845, .update 2 43690, .advance]
        (runCalls (start ⟨1, 0⟩ 3) [.update 0 0, .update 1 21845, .update 2 43690, .advance]) ∧
      (∀ j, (runCalls (start ⟨1, 0⟩ 3)
          [.update 0 0, .update 1 21845, .update 2 43690, .advance]).first j =
        [some 0, some 21845, some 43690].getD j none) ∧
      (∀ x ∈ [(0 : UInt16), 21845, 43690], ∀ y ∈ [(0 : UInt16), 21845, 43690],
        -(2 ^ 15 - 1) ≤ signed16 (x - y) ∧ signed16 (x - y) ≤ 2 ^ 15 - 1) ∧
      (runCalls (start ⟨1, 0⟩ 3)
          [.update 0 0, .update 1 21845, .update 2 43690, .advance]).clock.currentTimeslot =
        some 43690 ∧
      (runCalls (start ⟨1, 0⟩ 3)
          [.update 0 0, .update 1 21845, .update 2 43690, .advance]).clock.input 1 =
        some 21845 ∧
      signed16 (21845 - 43690) < 0 := by
  obtain ⟨hrun, -, hpast⟩ := @run_runCalls 3 _ [.update 0 0, .update 1 21845, .update 2 43690, .advance]
    (init_start ⟨1, 0⟩) fun i t h => by
      simp at h
      omega
  refine ⟨hrun, fun j => ?_, ?_, rfl, rfl, by decide⟩
  rotate_left
  · -- the nine signed differences, one by one
    simp only [List.mem_cons, List.not_mem_nil, or_false, forall_eq_or_imp, forall_eq]
    decide
  rcases j with _ | _ | _ | j
  · rfl
  · rfl
  · rfl
  · rw [hpast (j + 3) (by omega)]
    rfl

end Reducer

end OtelEbpf
