import Mathlib.Algebra.Order.Group.Nat
import Mathlib.Algebra.GroupWithZero.Nat

/-!
# Occupied blocks of a set of naturals

Level `k` cuts `ℕ` into blocks of `r ^ k` consecutive numbers: `y` lies in block `y / r ^ k`,
and block `x` of level `k` is the `x % r`-th of the `r` blocks of level `k` that make up block
`x / r` of level `k + 1`.  A block is *occupied* by a predicate `S` when it holds a member
(`Occ`); a block of level `k + 1` is occupied exactly when one of its `r` parts is (`occ_succ`).

A summary bitmap keeps one bit per block and level, and walks the members in order by moving
from an occupied block to the next (`IsNext`).  The *window* of a block `a` is the set of
occupied blocks among `a` and the blocks after it in the same parent (`Window`): the lemmas
below say how the next block is found from a window, inside the same parent
(`Window.isNext`), or by going up to the next occupied parent and down to its first occupied
part (`isNext_of_parent`), and when there is none (`noneAfter_of_parent`,
`noneAfter_of_top`).
-/

namespace OtelEbpf

namespace Blocks

variable {S : ℕ → Prop} {r k : ℕ}

/-- Block `x` of level `k` holds a member of `S`. -/
def Occ (S : ℕ → Prop) (r k x : ℕ) : Prop := ∃ y, S y ∧ y / r ^ k = x

/-- `x'` is the first occupied block of level `k` after `x`. -/
def IsNext (S : ℕ → Prop) (r k x x' : ℕ) : Prop :=
  x < x' ∧ Occ S r k x' ∧ ∀ y, x < y → y < x' → ¬Occ S r k y

/-- No block of level `k` after `x` is occupied. -/
def NoneAfter (S : ℕ → Prop) (r k x : ℕ) : Prop := ∀ y, x < y → ¬Occ S r k y

/-- The bits `bit b`, `b < r`, mark the occupied blocks of the parent of `a` from `a` on. -/
def Window (S : ℕ → Prop) (r k a : ℕ) (bit : ℕ → Prop) : Prop :=
  ∀ b < r, bit b ↔ Occ S r k (r * (a / r) + b) ∧ a % r ≤ b

@[simp] theorem occ_zero {x : ℕ} : Occ S r 0 x ↔ S x := by
  simp [Occ]

theorem occ_up {x : ℕ} (h : Occ S r k x) : Occ S r (k + 1) (x / r) := by
  obtain ⟨y, hy, rfl⟩ := h
  exact ⟨y, hy, by rw [pow_succ, Nat.div_div_eq_div_mul]⟩

theorem occ_ancestor {x : ℕ} (h : Occ S r k x) (m : ℕ) : Occ S r (k + m) (x / r ^ m) := by
  induction m with
  | zero => simpa using h
  | succ m ih =>
    have := occ_up ih
    rwa [Nat.div_div_eq_div_mul, ← pow_succ] at this

/-- A block of level `k + 1` is occupied exactly when one of its parts is. -/
theorem occ_succ (hr : 0 < r) {z : ℕ} : Occ S r (k + 1) z ↔ ∃ b < r, Occ S r k (r * z + b) := by
  constructor
  · rintro ⟨y, hy, hyz⟩
    refine ⟨y / r ^ k % r, Nat.mod_lt _ hr, y, hy, ?_⟩
    rw [← hyz, pow_succ, ← Nat.div_div_eq_div_mul, Nat.div_add_mod]
  · rintro ⟨b, hb, y, hy, hyx⟩
    refine ⟨y, hy, ?_⟩
    rw [pow_succ, ← Nat.div_div_eq_div_mul, hyx, Nat.mul_add_div hr, Nat.div_eq_of_lt hb,
      Nat.add_zero]

/-- The occupied blocks of level `k` at or above a block `x` whose parent is the first occupied
one at or above it: moving to the first occupied part of a parent. -/
theorem least_of_first {z x' : ℕ} (hz : ∀ y < z, ¬Occ S r (k + 1) y) (hx' : x' / r = z)
    (hfirst : ∀ y, y / r = z → y < x' → ¬Occ S r k y) : ∀ y < x', ¬Occ S r k y := by
  intro y hy hocc
  have hle : y / r ≤ z := hx' ▸ Nat.div_le_div_right hy.le
  rcases Nat.lt_or_eq_of_le hle with hlt | heq
  · exact hz _ hlt (occ_up hocc)
  · exact hfirst y heq hy hocc

section Window

variable {a : ℕ} {bit : ℕ → Prop}

/-- In the window of an occupied block `a` the lowest bit is that of `a` itself. -/
theorem Window.lowest (hw : Window S r k a bit) (hr : 0 < r) (ha : Occ S r k a) :
    bit (a % r) ∧ ∀ b < a % r, ¬bit b := by
  have har := Nat.mod_lt a hr
  refine ⟨(hw _ har).2 ⟨by rwa [Nat.div_add_mod], le_rfl⟩, fun b hb hbit => ?_⟩
  have := ((hw b (by omega)).1 hbit).2
  omega

/-- With the bit of `a` cleared and no bit left, no block after `a` in its parent is
occupied. -/
theorem Window.none_of_clear (hw : Window S r k a bit) (hr : 0 < r)
    (hnone : ∀ b < r, bit b → b = a % r) : ∀ y, y / r = a / r → a < y → ¬Occ S r k y := by
  intro y hy hay hocc
  have hyr := Nat.mod_lt y hr
  have hdiv : r * (a / r) + y % r = y := by
    rw [← hy]
    exact Nat.div_add_mod y r
  have ha := Nat.div_add_mod a r
  have hbit : bit (y % r) := (hw _ hyr).2 ⟨by rwa [hdiv], by omega⟩
  have := hnone _ hyr hbit
  omega

/-- With the bit of `a` cleared, the lowest bit `c` left marks the next occupied block, and the
bits left are its window. -/
theorem Window.isNext (hw : Window S r k a bit) (hr : 0 < r) {bit' : ℕ → Prop} (hbit' : ∀ b, bit' b ↔ bit b ∧ b ≠ a % r) {c : ℕ} (hcr : c < r)
    (hc : bit' c) (hleast : ∀ b < c, ¬bit' b) :
    Window S r k (r * (a / r) + c) bit' ∧ IsNext S r k a (r * (a / r) + c) := by
  have hdiv : (r * (a / r) + c) / r = a / r := by
    rw [Nat.mul_add_div hr, Nat.div_eq_of_lt hcr, Nat.add_zero]
  have hmod : (r * (a / r) + c) % r = c := by
    rw [Nat.mul_add_mod, Nat.mod_eq_of_lt hcr]
  have ha' := Nat.div_add_mod a r
  have hca : a % r < c := by
    have h₁ := (hw c hcr).1 ((hbit' c).1 hc).1
    have h₂ := ((hbit' c).1 hc).2
    omega
  refine ⟨fun b hb => ?_, by omega, ((hw c hcr).1 ((hbit' c).1 hc).1).1, ?_⟩
  · rw [hdiv, hmod, hbit', hw b hb]
    constructor
    · rintro ⟨⟨hocc, hle⟩, hne⟩
      refine ⟨hocc, Nat.le_of_not_lt fun hlt => hleast b hlt ((hbit' b).2 ⟨?_, hne⟩)⟩
      exact (hw b hb).2 ⟨hocc, hle⟩
    · rintro ⟨hocc, hle⟩
      exact ⟨⟨hocc, by omega⟩, by omega⟩
  · -- a block between `a` and the next lies in the same parent, at a bit below `c`
    intro y hay hyc hocc
    have hyr : y / r = a / r := by
      have h₁ : a / r ≤ y / r := Nat.div_le_div_right hay.le
      have h₂ : y / r ≤ a / r := hdiv ▸ Nat.div_le_div_right hyc.le
      omega
    have hy := Nat.div_add_mod y r
    rw [hyr] at hy
    have hbit : bit (y % r) :=
      (hw _ (Nat.mod_lt y hr)).2 ⟨by rwa [hy], by omega⟩
    exact hleast (y % r) (by omega) ((hbit' _).2 ⟨hbit, by omega⟩)

/-- The bits of a whole parent `z` are the window of its first occupied part, the lowest bit. -/
theorem Window.first (hr : 0 < r) {z c : ℕ} (hz : ∀ b < r, bit b ↔ Occ S r k (r * z + b))
    (hcr : c < r) (hc : bit c) (hleast : ∀ b < c, ¬bit b) :
    Occ S r k (r * z + c) ∧ Window S r k (r * z + c) bit ∧
      ∀ y, y / r = z → y < r * z + c → ¬Occ S r k y := by
  have hdiv : (r * z + c) / r = z := by
    rw [Nat.mul_add_div hr, Nat.div_eq_of_lt hcr, Nat.add_zero]
  have hmod : (r * z + c) % r = c := by
    rw [Nat.mul_add_mod, Nat.mod_eq_of_lt hcr]
  refine ⟨(hz c hcr).1 hc, fun b hb => ?_, fun y hyz hyc hocc => ?_⟩
  · rw [hdiv, hmod, hz b hb]
    exact ⟨fun hocc => ⟨hocc, Nat.le_of_not_lt fun hlt => hleast b hlt ((hz b hb).2 hocc)⟩,
      And.left⟩
  · have hy := Nat.div_add_mod y r
    rw [hyz] at hy
    have hyr := Nat.mod_lt y hr
    refine hleast (y % r) (by omega) ((hz _ hyr).2 ?_)
    rwa [hy]

end Window

/-- Nothing after `x` in its parent, and the next occupied parent's first occupied part `x'`:
`x'` is the next occupied block after `x`. -/
theorem isNext_of_parent {x z x' : ℕ}
    (hnone : ∀ y, y / r = x / r → x < y → ¬Occ S r k y) (hz : IsNext S r (k + 1) (x / r) z)
    (hx' : x' / r = z) (hocc : Occ S r k x') (hfirst : ∀ y, y / r = z → y < x' → ¬Occ S r k y) :
    IsNext S r k x x' := by
  obtain ⟨hxz, -, hgap⟩ := hz
  have hxx' : x < x' := by
    by_contra hle
    have : x' / r ≤ x / r := Nat.div_le_div_right (Nat.le_of_not_lt hle)
    omega
  refine ⟨hxx', hocc, fun y hxy hyx' hy => ?_⟩
  have h₁ : x / r ≤ y / r := Nat.div_le_div_right hxy.le
  have h₂ : y / r ≤ z := hx' ▸ Nat.div_le_div_right hyx'.le
  -- the parent of `y` is that of `x`, one strictly between, or `z`
  rcases Nat.lt_or_eq_of_le h₁ with hlt | heq
  · rcases Nat.lt_or_eq_of_le h₂ with hlt' | heq'
    · exact hgap _ hlt hlt' (occ_up hy)
    · exact hfirst y heq' hyx' hy
  · exact hnone y heq.symm hxy hy

/-- Nothing after `x` in its parent and nothing after the parent: nothing after `x`. -/
theorem noneAfter_of_parent {x : ℕ} (hnone : ∀ y, y / r = x / r → x < y → ¬Occ S r k y)
    (hup : NoneAfter S r (k + 1) (x / r)) : NoneAfter S r k x := by
  intro y hxy hy
  have h₁ : x / r ≤ y / r := Nat.div_le_div_right hxy.le
  rcases Nat.lt_or_eq_of_le h₁ with hlt | heq
  · exact hup _ hlt (occ_up hy)
  · exact hnone y heq.symm hxy hy

/-- At the top level all occupied blocks lie in parent `0`: nothing after `x` in it is nothing
after `x`. -/
theorem noneAfter_of_top {x : ℕ} (htop : ∀ y, Occ S r k y → y < r) (hx : Occ S r k x)
    (hnone : ∀ y, y / r = x / r → x < y → ¬Occ S r k y) : NoneAfter S r k x := by
  intro y hxy hy
  have hx0 : x / r = 0 := Nat.div_eq_of_lt (htop x hx)
  have hy0 : y / r = 0 := Nat.div_eq_of_lt (htop y hy)
  exact hnone y (hy0.trans hx0.symm) hxy hy

end Blocks

end OtelEbpf
