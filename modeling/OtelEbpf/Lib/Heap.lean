import Mathlib.Logic.Equiv.Basic
import Mathlib.Order.RelClasses

/-!
# Binary heaps in an array

`std::push_heap` and `std::pop_heap` keep the first `n` cells of an array as a binary heap
for a comparator `r`: no cell is less than a child, where the children of `i` are `2i + 1`
and `2i + 2`.  The array is `a : ℕ → α`.  `pushHeap a (n + 1)` sifts the cell `n` up into the
heap `[0, n)`; `popHeap a (n + 1)` swaps the root with the cell `n` and sifts the new root down
in `[0, n)`.  The sifts swap a cell with its parent or its greater child, as the textbook
algorithms do; the standard fixes only what they establish, which is what is proved here:

* `pushHeap_isHeap`, `popHeap_isHeap` : they keep the heap;
* `pushHeap_perm`, `popHeap_perm` : they rearrange the cells they cover (`PermBelow`), and
  `popHeap_last` : `std::pop_heap` leaves the old root in the last cell;
* `IsHeap.root_not_lt` : the root of a heap is not less than any cell.

The comparator is a strict order in which `¬ r` is transitive (`IsOrderConnected`), as the
standard requires of a `Compare`.
-/

namespace OtelEbpf

namespace Heap

variable {α : Type*}

/-- The parent of the cell `i`. -/
def parent (i : ℕ) : ℕ := (i - 1) / 2

theorem parent_lt {i : ℕ} (h : 0 < i) : parent i < i := by
  unfold parent
  omega

/-- The array with the cells `i` and `j` exchanged. -/
def swapAt (a : ℕ → α) (i j : ℕ) : ℕ → α := a ∘ Equiv.swap i j

section Swap

variable {a : ℕ → α} {i j k : ℕ}

@[simp] theorem swapAt_left : swapAt a i j i = a j := by simp [swapAt]

@[simp] theorem swapAt_right : swapAt a i j j = a i := by simp [swapAt]

theorem swapAt_of_ne (hi : k ≠ i) (hj : k ≠ j) : swapAt a i j k = a k := by
  simp [swapAt, Equiv.swap_apply_of_ne_of_ne hi hj]

end Swap

/-! ### Rearrangements -/

/-- `b` is `a` with its first `n` cells rearranged. -/
def PermBelow (n : ℕ) (b a : ℕ → α) : Prop :=
  ∃ σ : Equiv.Perm ℕ, (∀ i, n ≤ i → σ i = i) ∧ b = a ∘ σ

namespace PermBelow

variable {n : ℕ} {a b c : ℕ → α}

theorem refl (a : ℕ → α) : PermBelow n a a := ⟨Equiv.refl ℕ, fun _ _ => rfl, rfl⟩

theorem trans (hcb : PermBelow n c b) (hba : PermBelow n b a) : PermBelow n c a := by
  obtain ⟨τ, hτ, rfl⟩ := hcb
  obtain ⟨σ, hσ, rfl⟩ := hba
  refine ⟨τ.trans σ, fun i hi => ?_, rfl⟩
  simp [hτ i hi, hσ i hi]

theorem swapAt {i j : ℕ} (hi : i < n) (hj : j < n) : PermBelow n (Heap.swapAt a i j) a := by
  refine ⟨Equiv.swap i j, fun k hk => ?_, rfl⟩
  exact Equiv.swap_apply_of_ne_of_ne (by omega) (by omega)

/-- A permutation that fixes the cells from `n` on maps the first `n` cells among themselves. -/
theorem lt_of_lt {σ : Equiv.Perm ℕ} (hσ : ∀ i, n ≤ i → σ i = i) {i : ℕ} (hi : i < n) :
    σ i < n := by
  by_contra h
  have h' : σ (σ i) = σ i := hσ _ (by omega)
  have : σ i = i := σ.injective h'
  omega

theorem mono {m : ℕ} (h : PermBelow n b a) (hnm : n ≤ m) : PermBelow m b a := by
  obtain ⟨σ, hσ, rfl⟩ := h
  exact ⟨σ, fun i hi => hσ i (by omega), rfl⟩

theorem of_le (h : PermBelow n b a) {i : ℕ} (hi : n ≤ i) : b i = a i := by
  obtain ⟨σ, hσ, rfl⟩ := h
  simp [hσ i hi]

theorem exists_of_lt (h : PermBelow n b a) {i : ℕ} (hi : i < n) : ∃ j < n, b i = a j := by
  obtain ⟨σ, hσ, rfl⟩ := h
  exact ⟨σ i, lt_of_lt hσ hi, rfl⟩

theorem exists_eq (h : PermBelow n b a) {j : ℕ} (hj : j < n) : ∃ i < n, b i = a j := by
  obtain ⟨σ, hσ, rfl⟩ := h
  -- the inverse permutation also fixes the cells from `n` on
  have hσ' : ∀ i, n ≤ i → σ.symm i = i := fun i hi => by
    rw [Equiv.symm_apply_eq, hσ i hi]
  exact ⟨σ.symm j, lt_of_lt hσ' hj, by simp⟩

/-- A property that tells the first `n` cells apart still does after a rearrangement. -/
theorem injOn {f : α → β} (h : PermBelow n b a)
    (hinj : ∀ i < n, ∀ j < n, f (a i) = f (a j) → i = j) :
    ∀ i < n, ∀ j < n, f (b i) = f (b j) → i = j := by
  obtain ⟨σ, hσ, rfl⟩ := h
  intro i hi j hj hij
  exact σ.injective (hinj _ (lt_of_lt hσ hi) _ (lt_of_lt hσ hj) hij)

end PermBelow

/-! ### The algorithms -/

section Algorithms

variable (r : α → α → Prop) [DecidableRel r]

/-- The sift of `std::push_heap`: the cell `i` moves up while its parent is less than it. -/
def siftUp (a : ℕ → α) (i : ℕ) : ℕ → α :=
  if 0 < i then
    if r (a (parent i)) (a i) then siftUp (swapAt a i (parent i)) (parent i) else a
  else a
termination_by i
decreasing_by exact parent_lt (by assumption)

/-- The greater of the children of `i`, when `2i + 1 < n`. -/
def maxChild (a : ℕ → α) (n i : ℕ) : ℕ :=
  if 2 * i + 2 < n ∧ r (a (2 * i + 1)) (a (2 * i + 2)) then 2 * i + 2 else 2 * i + 1

theorem lt_maxChild (a : ℕ → α) (n i : ℕ) : i < maxChild r a n i := by
  unfold maxChild
  split <;> omega

/-- The sift of `std::pop_heap`: the cell `i` moves down while its greater child is greater. -/
def siftDown (a : ℕ → α) (n i : ℕ) : ℕ → α :=
  if 2 * i + 1 < n then
    if r (a i) (a (maxChild r a n i)) then
      siftDown (swapAt a i (maxChild r a n i)) n (maxChild r a n i)
    else a
  else a
termination_by n - i
decreasing_by have := lt_maxChild r a n i; omega

/-- `std::push_heap(a, a + n)`. -/
def pushHeap (a : ℕ → α) (n : ℕ) : ℕ → α := siftUp r a (n - 1)

/-- `std::pop_heap(a, a + n)`. -/
def popHeap (a : ℕ → α) (n : ℕ) : ℕ → α := siftDown r (swapAt a 0 (n - 1)) (n - 1) 0

/-- The first `n` cells form a heap. -/
def IsHeap (a : ℕ → α) (n : ℕ) : Prop :=
  ∀ i, 0 < i → i < n → ¬ r (a (parent i)) (a i)

end Algorithms

/-! ### What the algorithms keep -/

/-- What the sift up needs: every cell but `i` is not greater than its parent, and the
children of `i` are not greater than the parent of `i`. -/
structure UpInv (r : α → α → Prop) (a : ℕ → α) (n i : ℕ) : Prop where
  except : ∀ j, 0 < j → j < n → j ≠ i → ¬ r (a (parent j)) (a j)
  grand : 0 < i → ∀ c, 0 < c → parent c = i → c < n → ¬ r (a (parent i)) (a c)

/-- What the sift down needs: every cell whose parent is not `i` is not greater than its
parent, and the children of `i` are not greater than the parent of `i`. -/
structure DownInv (r : α → α → Prop) (a : ℕ → α) (n i : ℕ) : Prop where
  except : ∀ j, 0 < j → j < n → parent j ≠ i → ¬ r (a (parent j)) (a j)
  grand : 0 < i → ∀ c, 0 < c → parent c = i → c < n → ¬ r (a (parent i)) (a c)

/-- A heap is a property of its first `n` cells only. -/
theorem IsHeap.congr {r : α → α → Prop} {a b : ℕ → α} {n : ℕ} (h : IsHeap r a n)
    (hb : ∀ i < n, b i = a i) : IsHeap r b n := by
  intro i hi hin
  have hp := parent_lt hi
  rw [hb i hin, hb _ (by omega)]
  exact h i hi hin

theorem children_of_parent {c i : ℕ} (hc : 0 < c) (hcp : parent c = i) :
    c = 2 * i + 1 ∨ c = 2 * i + 2 := by
  unfold parent at hcp
  omega

section Invariants

variable {r : α → α → Prop} {a : ℕ → α} {n i : ℕ}

theorem UpInv.finish (o : UpInv r a n i) (hstop : 0 < i → ¬ r (a (parent i)) (a i)) :
    IsHeap r a n := by
  intro j hj hjn
  by_cases hji : j = i
  · subst hji
    exact hstop hj
  · exact o.except j hj hjn hji

variable [IsStrictOrder α r] [IsOrderConnected α r]

theorem UpInv.step (o : UpInv r a n i) (hpos : 0 < i) (hi : i < n)
    (hlt : r (a (parent i)) (a i)) : UpInv r (swapAt a i (parent i)) n (parent i) := by
  have hp := parent_lt hpos
  constructor
  · intro j hj hjn hjp
    by_cases hji : j = i
    · -- the parent and `i` were exchanged
      subst hji
      rw [swapAt_left, swapAt_right]
      exact asymm_of r hlt
    rw [swapAt_of_ne hji hjp]
    by_cases hpi : parent j = i
    · rw [hpi, swapAt_left]
      exact o.grand hpos j hj hpi hjn
    by_cases hpp : parent j = parent i
    · -- a sibling of `i`: not greater than the old parent, which is less than `a i`
      rw [hpp, swapAt_right]
      have hs := o.except j hj hjn hji
      rw [hpp] at hs
      exact fun h => hs (trans_of r hlt h)
    · rw [swapAt_of_ne hpi hpp]
      exact o.except j hj hjn hji
  · intro hp0 c hc hcp hcn
    have hgp := parent_lt hp0
    rw [swapAt_of_ne (by omega) (by omega)]
    have hG := o.except (parent i) hp0 (by omega) (by omega)
    by_cases hci : c = i
    · rw [hci, swapAt_left]
      exact hG
    · have hcp' : c ≠ parent i := by have := parent_lt hc; omega
      rw [swapAt_of_ne hci hcp']
      have hs := o.except c hc hcn hci
      rw [hcp] at hs
      exact IsOrderConnected.neg_trans hG hs

/-- **The root of a heap is not less than any of its cells.** -/
theorem IsHeap.root_not_lt (h : IsHeap r a n) {i : ℕ} (hi : i < n) : ¬ r (a 0) (a i) := by
  induction i using Nat.strongRecOn with
  | ind i ih =>
    rcases Nat.eq_zero_or_pos i with rfl | hpos
    · exact irrefl_of r _
    · -- through the parent, which is nearer the root
      have hp := parent_lt hpos
      exact IsOrderConnected.neg_trans (ih _ hp (by omega)) (h i hpos hi)

end Invariants

section Sifts

variable {r : α → α → Prop} [DecidableRel r]

theorem siftUp_perm (a : ℕ → α) {n i : ℕ} (hi : i < n) : PermBelow n (siftUp r a i) a := by
  fun_induction siftUp r a i with
  | case1 a i hpos hlt ih =>
    have hp := parent_lt hpos
    exact (ih (by omega)).trans (PermBelow.swapAt hi (by omega))
  | case2 a i _ _ => exact PermBelow.refl a
  | case3 a i _ => exact PermBelow.refl a

theorem siftDown_perm (a : ℕ → α) (n i : ℕ) : PermBelow n (siftDown r a n i) a := by
  fun_induction siftDown r a n i with
  | case1 a i hc hlt ih =>
    have hlt' := lt_maxChild r a n i
    exact ih.trans (PermBelow.swapAt (by omega) (by unfold maxChild; split <;> omega))
  | case2 a i _ _ => exact PermBelow.refl a
  | case3 a i _ => exact PermBelow.refl a

variable [IsStrictOrder α r] {a : ℕ → α} {n i : ℕ}

/-- The greater child is a child, and no child is greater. -/
theorem maxChild_spec (hc : 2 * i + 1 < n) :
    parent (maxChild r a n i) = i ∧ maxChild r a n i < n ∧
      ∀ d, 0 < d → parent d = i → d < n → ¬ r (a (maxChild r a n i)) (a d) := by
  unfold maxChild
  split
  · rename_i h
    refine ⟨by unfold parent; omega, h.1, fun d hd hdp hdn => ?_⟩
    rcases children_of_parent hd hdp with rfl | rfl
    · exact asymm_of r h.2
    · exact irrefl_of r _
  · rename_i h
    refine ⟨by unfold parent; omega, hc, fun d hd hdp hdn => ?_⟩
    rcases children_of_parent hd hdp with rfl | rfl
    · exact irrefl_of r _
    · exact fun h' => h ⟨hdn, h'⟩

theorem DownInv.step (o : DownInv r a n i) (hc : 2 * i + 1 < n)
    (hlt : r (a i) (a (maxChild r a n i))) :
    DownInv r (swapAt a i (maxChild r a n i)) n (maxChild r a n i) := by
  obtain ⟨hcp, hcn, hmax⟩ := maxChild_spec (r := r) (a := a) hc
  have hic := lt_maxChild r a n i
  generalize maxChild r a n i = c at hcp hcn hmax hic hlt ⊢
  constructor
  · intro j hj hjn hjc
    by_cases hjc' : j = c
    · -- `i` and its greater child were exchanged
      subst hjc'
      rw [hcp, swapAt_left, swapAt_right]
      exact asymm_of r hlt
    by_cases hji : j = i
    · subst hji
      have hq := parent_lt hj
      rw [swapAt_left, swapAt_of_ne (by omega) (by omega)]
      exact o.grand hj c (by omega) hcp hcn
    rw [swapAt_of_ne hji hjc']
    by_cases hpi : parent j = i
    · rw [hpi, swapAt_left]
      exact hmax j hj hpi hjn
    · rw [swapAt_of_ne hpi hjc]
      exact o.except j hj hjn hpi
  · intro _ d hd hdp hdn
    have hcd := parent_lt hd
    rw [hcp, swapAt_left, swapAt_of_ne (by omega) (by omega)]
    have h := o.except d hd hdn (by omega)
    rwa [hdp] at h

variable [IsOrderConnected α r]

theorem siftUp_isHeap (o : UpInv r a n i) (hi : i < n) : IsHeap r (siftUp r a i) n := by
  fun_induction siftUp r a i with
  | case1 a i hpos hlt ih =>
    have hp := parent_lt hpos
    exact ih (o.step hpos hi hlt) (by omega)
  | case2 a i hpos hlt => exact o.finish fun _ => hlt
  | case3 a i hpos => exact o.finish fun h => absurd h hpos

theorem DownInv.finish (o : DownInv r a n i)
    (hstop : 2 * i + 1 < n → ¬ r (a i) (a (maxChild r a n i))) : IsHeap r a n := by
  intro j hj hjn
  by_cases hpi : parent j = i
  · have hc : 2 * i + 1 < n := by rcases children_of_parent hj hpi with rfl | rfl <;> omega
    obtain ⟨-, -, hmax⟩ := maxChild_spec (r := r) (a := a) hc
    rw [hpi]
    exact IsOrderConnected.neg_trans (hstop hc) (hmax j hj hpi hjn)
  · exact o.except j hj hjn hpi

theorem siftDown_isHeap (o : DownInv r a n i) : IsHeap r (siftDown r a n i) n := by
  fun_induction siftDown r a n i with
  | case1 a i hc hlt ih => exact ih (o.step hc hlt)
  | case2 a i hc hlt => exact o.finish fun _ => hlt
  | case3 a i hc => exact o.finish fun h => absurd h hc

end Sifts

/-! ### `std::push_heap` and `std::pop_heap` -/

section Std

variable {r : α → α → Prop} [DecidableRel r] {a : ℕ → α} {n : ℕ}

theorem pushHeap_perm (hn : 0 < n) : PermBelow n (pushHeap r a n) a :=
  siftUp_perm a (by omega)

theorem popHeap_perm : PermBelow (n + 1) (popHeap r a (n + 1)) a := by
  have h := siftDown_perm (r := r) (swapAt a 0 n) n 0
  exact (h.mono (by omega)).trans (PermBelow.swapAt (by omega) (by omega))

/-- `std::pop_heap` leaves the old root in the last cell. -/
theorem popHeap_last : popHeap r a (n + 1) n = a 0 := by
  have h := siftDown_perm (r := r) (swapAt a 0 n) n 0
  rw [popHeap, Nat.add_sub_cancel, h.of_le (Nat.le_refl n), swapAt_right]

variable [IsStrictOrder α r] [IsOrderConnected α r]

/-- **`std::push_heap` turns a heap and one more cell into a heap.** -/
theorem pushHeap_isHeap (h : IsHeap r a n) : IsHeap r (pushHeap r a (n + 1)) (n + 1) := by
  refine siftUp_isHeap ⟨fun j hj hjn hjm => h j hj (by omega), fun _ c hc hcp hcn => ?_⟩
    (by omega)
  -- the new cell is a leaf
  rw [Nat.add_sub_cancel] at hcp
  rcases children_of_parent hc hcp with rfl | rfl <;> omega

/-- **`std::pop_heap` leaves a heap one cell shorter.** -/
theorem popHeap_isHeap (h : IsHeap r a (n + 1)) : IsHeap r (popHeap r a (n + 1)) n := by
  refine siftDown_isHeap ⟨fun j hj hjn hjp => ?_, fun h0 => absurd h0 (Nat.lt_irrefl 0)⟩
  have hp := parent_lt hj
  rw [Nat.add_sub_cancel] at hjn ⊢
  rw [swapAt_of_ne (k := j) (by omega) (by omega), swapAt_of_ne hjp (by omega)]
  exact h j hj (by omega)

end Std

end Heap

end OtelEbpf
