import Mathlib.Data.List.Induction

/-!
# Runs of a labelled transition system

A component that runs alongside others (a producer and a consumer sharing memory, a poller fed
by a stream of events) is modelled by a state type `σ`, a set of initial states and a step
relation labelled by *events* `ε`: `step s e s'` says that from `s` the component can do `e`
and reach `s'`.  An event records what the code returned, so that properties of what a caller
observes are properties of the list of events.

`Run init step es s` says that the events `es`, in this order, lead from an initial state to
`s`.  Runs grow at the end, the way time goes, so induction on a run is the usual
"holds initially, and one more step keeps it" argument (`Run.induction`).

* `Run.of_append` : every prefix of a run is a run, so a property proved of every run holds at
  every point of every run.
* `Run.invariant` : a state invariant holds at the end of every run.
-/

namespace OtelEbpf

universe u v

variable {σ : Type u} {ε : Type v}

/-- `Run init step es s`: from a state satisfying `init`, the events `es` lead to `s`. -/
inductive Run (init : σ → Prop) (step : σ → ε → σ → Prop) : List ε → σ → Prop
  | start {s : σ} : init s → Run init step [] s
  | snoc {es : List ε} {s : σ} {e : ε} {s' : σ} :
      Run init step es s → step s e s' → Run init step (es ++ [e]) s'

namespace Run

variable {init : σ → Prop} {step : σ → ε → σ → Prop}

/-- Induction along a run: a property of the events so far and the current state that holds
at the start and survives every step holds at the end of every run. -/
theorem induction {P : List ε → σ → Prop} (h₀ : ∀ s, init s → P [] s)
    (hstep : ∀ es s e s', P es s → step s e s' → P (es ++ [e]) s') :
    ∀ {es s}, Run init step es s → P es s := by
  intro es s h
  induction h with
  | start hs => exact h₀ _ hs
  | snoc _ hst ih => exact hstep _ _ _ _ ih hst

/-- A state invariant holds at the end of every run. -/
theorem invariant {I : σ → Prop} (h₀ : ∀ s, init s → I s)
    (hstep : ∀ s e s', I s → step s e s' → I s') {es : List ε} {s : σ}
    (h : Run init step es s) : I s :=
  induction (P := fun _ s => I s) h₀ (fun _ s e s' hs hst => hstep s e s' hs hst) h

/-- The last step of a non-empty run. -/
theorem snoc_inv {es : List ε} {e : ε} {s' : σ} (h : Run init step (es ++ [e]) s') :
    ∃ s, Run init step es s ∧ step s e s' := by
  generalize hl : es ++ [e] = l at h
  cases h with
  | start => simp at hl
  | snoc hrun hst =>
    obtain ⟨rfl, he⟩ := List.append_inj' hl rfl
    cases he
    exact ⟨_, hrun, hst⟩

/-- Every prefix of a run is a run. -/
theorem of_append {es es' : List ε} {s : σ} (h : Run init step (es ++ es') s) :
    ∃ s₀, Run init step es s₀ := by
  induction es' using List.reverseRecOn generalizing s with
  | nil => exact ⟨s, by simpa using h⟩
  | append_singleton es' e ih =>
    rw [← List.append_assoc] at h
    obtain ⟨s₁, hrun, -⟩ := snoc_inv h
    exact ih hrun

end Run

end OtelEbpf
