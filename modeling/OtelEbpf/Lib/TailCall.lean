import Mathlib.Data.List.Basic

/-!
# Bounded chains of tail calls

A program that may not loop hands its work on from call to call: each call reads the state
saved between calls, emits an output, and either ends the chain or makes the next call with the
state it updated.  `chain step fuel s` is the list of the outputs of at most `fuel` calls from
`s`.

* `chain_succ_of_lt`, `chain_eq_of_le` : when every handed-on state lowers a measure that is
  below the fuel, more fuel changes nothing: the chain ends by itself.
* `chain_induction` : a property of a state and of what the chain from it emits, shown for a
  call that ends the chain and carried back over a call that hands on, holds of the whole chain.
-/

namespace OtelEbpf

namespace TailCall

variable {σ β : Type*} (step : σ → Option (β × Option σ))

/-- The outputs of at most `fuel` calls of `step` from `s`; a call that answers `none` ends the
chain with no output. -/
def chain : ℕ → σ → List β
  | 0, _ => []
  | fuel + 1, s =>
    match step s with
    | none => []
    | some (b, none) => [b]
    | some (b, some s') => b :: chain fuel s'

variable {step} {s s' : σ} {b : β}

@[simp] theorem chain_zero (s : σ) : chain step 0 s = [] := rfl

theorem chain_succ_of_none (h : step s = none) (fuel : ℕ) : chain step (fuel + 1) s = [] := by
  simp only [chain, h]

theorem chain_succ_of_last (h : step s = some (b, none)) (fuel : ℕ) :
    chain step (fuel + 1) s = [b] := by
  simp only [chain, h]

theorem chain_succ_of_next (h : step s = some (b, some s')) (fuel : ℕ) :
    chain step (fuel + 1) s = b :: chain step fuel s' := by
  simp only [chain, h]

section Measure

variable (I : σ → Prop) (μ : σ → ℕ)

/-- The chain ends by itself once the fuel exceeds a measure that every handed-on state lowers,
under an invariant that the handing on keeps. -/
theorem chain_succ_of_lt
    (hnext : ∀ s b s', I s → step s = some (b, some s') → I s' ∧ μ s' < μ s) :
    ∀ fuel s, I s → μ s < fuel → chain step (fuel + 1) s = chain step fuel s
  | 0, _, _, h => absurd h (Nat.not_lt_zero _)
  | fuel + 1, s, hs, h => by
    match hstep : step s with
    | none => rw [chain_succ_of_none hstep, chain_succ_of_none hstep]
    | some (b, none) => rw [chain_succ_of_last hstep, chain_succ_of_last hstep]
    | some (b, some s') =>
      obtain ⟨hs', hμ⟩ := hnext s b s' hs hstep
      rw [chain_succ_of_next hstep, chain_succ_of_next hstep,
        chain_succ_of_lt hnext fuel s' hs' (by omega)]

/-- Any fuel above the measure gives the same chain. -/
theorem chain_eq_of_le
    (hnext : ∀ s b s', I s → step s = some (b, some s') → I s' ∧ μ s' < μ s) {s : σ}
    (hs : I s) {fuel : ℕ} (hμ : μ s < fuel) {fuel' : ℕ} (hle : fuel ≤ fuel') :
    chain step fuel' s = chain step fuel s := by
  obtain ⟨k, rfl⟩ := Nat.exists_eq_add_of_le hle
  induction k with
  | zero => rfl
  | succ k ih =>
    rw [← Nat.add_assoc, chain_succ_of_lt I μ hnext (fuel + k) s hs (by omega),
      ih (Nat.le_add_right _ _)]

/-- Total correctness of a chain: with fuel above the measure, the chain's whole output satisfies
`P`, which a call that ends the chain establishes and a call that hands on carries back. -/
theorem chain_induction (P : σ → List β → Prop)
    (hnone : ∀ s, I s → step s = none → P s [])
    (hlast : ∀ s b, I s → step s = some (b, none) → P s [b])
    (hnext : ∀ s b s', I s → step s = some (b, some s') →
      I s' ∧ μ s' < μ s ∧ ∀ bs, P s' bs → P s (b :: bs)) :
    ∀ fuel s, I s → μ s < fuel → P s (chain step fuel s)
  | 0, _, _, h => absurd h (Nat.not_lt_zero _)
  | fuel + 1, s, hs, h => by
    match hstep : step s with
    | none => rw [chain_succ_of_none hstep]; exact hnone s hs hstep
    | some (b, none) => rw [chain_succ_of_last hstep]; exact hlast s b hs hstep
    | some (b, some s') =>
      obtain ⟨hs', hμ, hback⟩ := hnext s b s' hs hstep
      rw [chain_succ_of_next hstep]
      exact hback _ (chain_induction P hnone hlast hnext fuel s' hs' (by omega))

end Measure

end TailCall

end OtelEbpf
