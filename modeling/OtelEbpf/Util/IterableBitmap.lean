import OtelEbpf.Lib.Bits
import OtelEbpf.Lib.Blocks
import OtelEbpf.Lib.Run

/-!
# The iterable bitmap

`IterableBitmap<SIZE>` (`util/iterable_bitmap.h`) holds a set of indices below `SIZE`, one bit
each in the `u64` words of `mask0`.  Above it stand up to four levels of summary words: bit `j`
of level `k + 1` is set when word `j` of level `k` is nonzero, so that the iterator can skip
empty words.  The number of words `l<k>` of each level and the number of levels are
`constexpr` arithmetic on `SIZE` (`l0`, `nextLevel`, `levels`); the highest level in use has
one word, the root.  `set` marks a bit at every level; `clear` unmarks it at level 0 and goes up
only while the word it leaves is zero.

The five arrays `mask0` to `mask4` are `IterableBitmap.mask k` for `k < 5`, an array a function
from word index to `BitVec 64`.  The iterator is in `OtelEbpf.Util.BitmapIterator`.

The run of the component is a sequence of `set` and `clear` calls on indices below `SIZE`.
Its meaning is the set of indices whose last call was a `set` (`lastCall`), and what a bitmap
holds is the set bits of level `0` (`Mem`).

* `Wf` : the bitmap's invariant; every set bit of level `0` is below `SIZE`, and a bit of
  level `k` is set exactly when its block of `64 ^ k` indices holds a member;
* `wf_set`, `wf_clear` : `set` and `clear` keep it;
* `wf_of_run`, `mem_of_run` : along every run the invariant holds and the bitmap holds exactly
  the indices last set;
* `get_ne_zero_iff`, `summary_iff` : `get` reads membership, and a summary bit is set exactly
  when the word below it is nonzero.
-/

namespace OtelEbpf

namespace Util

open Blocks

/-! ### `platform/generic.h` -/

/-- `__set_bit64(nr, addr)`: `addr[nr / 64] |= 1ULL << (nr % 64)`. -/
def setBit64 (nr : ℕ) (addr : ℕ → BitVec 64) : ℕ → BitVec 64 :=
  Function.update addr (nr / 64) (addr (nr / 64) ||| 1#64 <<< (nr % 64))

/-- `__clear_bit64(nr, addr)`: `addr[nr / 64] &= ~(1ULL << (nr % 64))`. -/
def clearBit64 (nr : ℕ) (addr : ℕ → BitVec 64) : ℕ → BitVec 64 :=
  Function.update addr (nr / 64) (addr (nr / 64) &&& ~~~(1#64 <<< (nr % 64)))

/-- `test_bit(nr, addr)`: `1UL & (addr[BIT_WORD(nr)] >> (nr & (BITS_PER_LONG - 1)))`. -/
def testBit (nr : ℕ) (addr : ℕ → BitVec 64) : ℕ :=
  (1#64 &&& addr (nr / 64) >>> (nr &&& 63)).toNat

/-- The bits of word `j` after `__set_bit64(nr, addr)`. -/
theorem getLsbD_setBit64 (nr : ℕ) (addr : ℕ → BitVec 64) (j b : ℕ) :
    (setBit64 nr addr j).getLsbD b = ((addr j).getLsbD b || (j == nr / 64 && b == nr % 64)) := by
  unfold setBit64
  by_cases hj : j = nr / 64
  · subst hj
    rw [Function.update_self, Bits.getLsbD_or_shiftLeft _ (Nat.mod_lt _ (by decide))]
    simp
  · rw [Function.update_of_ne hj]
    simp [hj]

/-- The bits of word `j` after `__clear_bit64(nr, addr)`. -/
theorem getLsbD_clearBit64 (nr : ℕ) (addr : ℕ → BitVec 64) (j b : ℕ) :
    (clearBit64 nr addr j).getLsbD b =
      ((addr j).getLsbD b && !(j == nr / 64 && b == nr % 64)) := by
  unfold clearBit64
  by_cases hj : j = nr / 64
  · subst hj
    rw [Function.update_self, Bits.getLsbD_and_not_shiftLeft, beq_self_eq_true, Bool.true_and]
    rfl
  · rw [Function.update_of_ne hj]
    simp [hj]

/-! ### The levels -/

/-- `l0`: one word for every `2 ^ 6` indices. -/
def l0 (SIZE : ℕ) : ℕ := (SIZE + 63) / 64

/-- The words of the level above a level of `l` words, one for every `64`: none above a level
of one word, the root. -/
def nextLevel (l : ℕ) : ℕ := if l = 1 then 0 else (l + 63) / 64

/-- `l1`: one word for every `2 ^ 12` indices. -/
def l1 (SIZE : ℕ) : ℕ := nextLevel (l0 SIZE)

/-- `l2`: one word for every `2 ^ 18` indices. -/
def l2 (SIZE : ℕ) : ℕ := nextLevel (l1 SIZE)

/-- `l3`: one word for every `2 ^ 24` indices. -/
def l3 (SIZE : ℕ) : ℕ := nextLevel (l2 SIZE)

/-- `l4`: one word for every `2 ^ 30` indices. -/
def l4 (SIZE : ℕ) : ℕ := nextLevel (l3 SIZE)

/-- `levels`: the number of levels in use. -/
def levels (SIZE : ℕ) : ℕ :=
  if 0 < l4 SIZE then 5 else if 0 < l3 SIZE then 4 else if 0 < l2 SIZE then 3
  else if 0 < l1 SIZE then 2 else 1

/-- `l<k>`, the words of level `k`; there are five levels. -/
def levelSize (SIZE : ℕ) : ℕ → ℕ
  | 0 => l0 SIZE
  | 1 => l1 SIZE
  | 2 => l2 SIZE
  | 3 => l3 SIZE
  | 4 => l4 SIZE
  | _ => 0

section Levels

variable {SIZE : ℕ}

theorem levels_le_five (SIZE : ℕ) : levels SIZE ≤ 5 := by
  unfold levels
  split_ifs <;> omega

theorem one_le_levels (SIZE : ℕ) : 1 ≤ levels SIZE := by
  unfold levels
  split_ifs <;> omega

theorem levelSize_succ {k : ℕ} (hk : k < 4) :
    levelSize SIZE (k + 1) = nextLevel (levelSize SIZE k) := by
  match k, hk with
  | 0, _ | 1, _ | 2, _ | 3, _ => rfl

theorem nextLevel_pos_iff {l : ℕ} : 0 < nextLevel l ↔ 1 < l := by
  unfold nextLevel
  split_ifs <;> omega

/-- A level of at most `n` words lies below one of at most `64 n`. -/
theorem le_of_nextLevel_le {l n : ℕ} (hn : 1 ≤ n) (h : nextLevel l ≤ n) : l ≤ 64 * n := by
  unfold nextLevel at h
  split_ifs at h <;> omega

/-- A level is in use exactly when it has a word. -/
theorem levelSize_pos_iff (hsize : 0 < SIZE) {k : ℕ} : 0 < levelSize SIZE k ↔ k < levels SIZE := by
  -- the levels with words are an initial segment: a level above one without words has none
  have h₀ : 0 < l0 SIZE := by unfold l0; omega
  have h₁ : 0 < l1 SIZE → 0 < l0 SIZE := fun _ => h₀
  have h₂ : 0 < l2 SIZE → 0 < l1 SIZE := fun h => by
    have := nextLevel_pos_iff.1 h
    omega
  have h₃ : 0 < l3 SIZE → 0 < l2 SIZE := fun h => by
    have := nextLevel_pos_iff.1 h
    omega
  have h₄ : 0 < l4 SIZE → 0 < l3 SIZE := fun h => by
    have := nextLevel_pos_iff.1 h
    omega
  match k with
  | 0 | 1 | 2 | 3 | 4 =>
    simp only [levelSize, levels]
    split_ifs <;> omega
  | k + 5 =>
    have := levels_le_five SIZE
    simp only [levelSize]
    omega

/-- Level `k` covers at most `64 ^ (k + 1)` indices per word. -/
theorem size_le_of_levelSize_le {k n : ℕ} (hk : k ≤ 4) (hn : 1 ≤ n) (h : levelSize SIZE k ≤ n) :
    SIZE ≤ 64 ^ (k + 1) * n := by
  induction k generalizing n with
  | zero =>
    simp only [levelSize, l0] at h
    omega
  | succ k ih =>
    rw [levelSize_succ (by omega)] at h
    have := ih (by omega) (by omega) (le_of_nextLevel_le hn h)
    rwa [pow_succ, Nat.mul_assoc]

/-- The levels in use cover all indices: the root word has a bit for every block of the highest
level. -/
theorem size_le_pow_levels (hmax : SIZE ≤ 2 ^ 30) : SIZE ≤ 64 ^ levels SIZE := by
  rcases Nat.eq_zero_or_pos SIZE with h0 | hsize
  · rw [h0]
    exact Nat.zero_le _
  have hL := levels_le_five SIZE
  rcases Nat.lt_or_ge (levels SIZE) 5 with hlt | hge
  · -- below five levels the first level not in use has no word, so the one under it has one
    have hnone : levelSize SIZE (levels SIZE) = 0 :=
      Nat.eq_zero_of_not_pos fun h => absurd ((levelSize_pos_iff hsize).1 h) (lt_irrefl _)
    have hL1 := one_le_levels SIZE
    have htop : levelSize SIZE (levels SIZE - 1) ≤ 1 := by
      have h : levelSize SIZE (levels SIZE - 1 + 1) = nextLevel (levelSize SIZE (levels SIZE - 1)) :=
        levelSize_succ (by omega)
      rw [Nat.sub_add_cancel hL1, hnone] at h
      have := nextLevel_pos_iff (l := levelSize SIZE (levels SIZE - 1))
      omega
    have := size_le_of_levelSize_le (by omega) le_rfl htop
    rwa [Nat.sub_add_cancel hL1, Nat.mul_one] at this
  · rw [show levels SIZE = 5 by omega]
    exact hmax.trans (by decide)

end Levels

/-! ### The bitmap -/

/-- The words of an `IterableBitmap`: `mask k j` is word `j` of `mask<k>`. -/
structure IterableBitmap where
  mask : ℕ → ℕ → BitVec 64

namespace IterableBitmap

variable (SIZE : ℕ)

/-- The constructor: every word zero. -/
def empty : IterableBitmap := ⟨fun _ _ => 0#64⟩

/-- The bitmap with the words of level `k` replaced by `f` of them. -/
def modify (bm : IterableBitmap) (k : ℕ) (f : (ℕ → BitVec 64) → ℕ → BitVec 64) :
    IterableBitmap :=
  ⟨Function.update bm.mask k (f (bm.mask k))⟩

/-- One summary step of `set`, at level `k ≥ 1`:
`if (l<k> > 0) __set_bit64(index >> 6k, mask<k>.data())`. -/
def setLevel (k index : ℕ) (bm : IterableBitmap) : IterableBitmap :=
  if 0 < levelSize SIZE k then bm.modify k (setBit64 (index >>> (6 * k))) else bm

/-- `set(index)`: marks `index` at level `0` and its block at every summary level. -/
def set (bm : IterableBitmap) (index : ℕ) : IterableBitmap :=
  let bm := bm.modify 0 (setBit64 index)
  let bm := setLevel SIZE 1 index bm
  let bm := setLevel SIZE 2 index bm
  let bm := setLevel SIZE 3 index bm
  setLevel SIZE 4 index bm

/-- One summary step of `clear`, at level `k ≥ 1`:
`if ((l<k> > 0) && (mask<k-1>[index >> 6k] == 0)) __clear_bit64(index >> 6k, mask<k>.data())`. -/
def clearLevel (k index : ℕ) (bm : IterableBitmap) : IterableBitmap :=
  if 0 < levelSize SIZE k ∧ bm.mask (k - 1) (index >>> (6 * k)) = 0#64 then
    bm.modify k (clearBit64 (index >>> (6 * k)))
  else bm

/-- `clear(index)`: unmarks `index` at level `0`, and its block at a summary level when the word
below has become zero. -/
def clear (bm : IterableBitmap) (index : ℕ) : IterableBitmap :=
  let bm := bm.modify 0 (clearBit64 index)
  let bm := clearLevel SIZE 1 index bm
  let bm := clearLevel SIZE 2 index bm
  let bm := clearLevel SIZE 3 index bm
  clearLevel SIZE 4 index bm

/-- `get(index)`: `test_bit(index, mask0.data())`. -/
def get (bm : IterableBitmap) (index : ℕ) : ℕ := testBit index (bm.mask 0)

variable {SIZE}

theorem modify_mask (bm : IterableBitmap) (k : ℕ) (f : (ℕ → BitVec 64) → ℕ → BitVec 64)
    (j : ℕ) : (bm.modify k f).mask j = if j = k then f (bm.mask k) else bm.mask j := by
  unfold modify
  by_cases hj : j = k
  · subst hj
    simp
  · simp [hj]

theorem shiftRight_six_mul (index k : ℕ) : index >>> (6 * k) = index / 64 ^ k := by
  rw [Nat.shiftRight_eq_div_pow, pow_mul]
  rfl

theorem mask_setLevel (k index : ℕ) (bm : IterableBitmap) (j : ℕ) :
    (setLevel SIZE k index bm).mask j =
      if j = k ∧ 0 < levelSize SIZE k then setBit64 (index / 64 ^ k) (bm.mask j) else bm.mask j := by
  unfold setLevel
  by_cases hj : j = k
  · subst hj
    split_ifs <;> simp_all [modify_mask, shiftRight_six_mul]
  · split_ifs <;> simp_all [modify_mask]

theorem mask_clearLevel (k index : ℕ) (bm : IterableBitmap) (j : ℕ) :
    (clearLevel SIZE k index bm).mask j =
      if j = k ∧ 0 < levelSize SIZE k ∧ bm.mask (k - 1) (index / 64 ^ k) = 0#64 then
        clearBit64 (index / 64 ^ k) (bm.mask j)
      else bm.mask j := by
  unfold clearLevel
  rw [shiftRight_six_mul]
  by_cases hj : j = k
  · subst hj
    split_ifs <;> simp_all [modify_mask]
  · split_ifs <;> simp_all [modify_mask]

/-- The words of level `k` after `set`: the bit of the block of `index` is set at level `0`
and at every level with words. -/
theorem mask_set (bm : IterableBitmap) (index k : ℕ) :
    (bm.set SIZE index).mask k =
      if k = 0 ∨ 0 < levelSize SIZE k then setBit64 (index / 64 ^ k) (bm.mask k)
      else bm.mask k := by
  simp only [set, mask_setLevel, modify_mask]
  match k with
  | 0 => simp
  | 1 | 2 | 3 | 4 => simp
  | k + 5 => simp [levelSize]

/-- The words of level `k ≥ 1` after `clear`: the bit of the block of `index` is cleared when
the word below it is zero once `clear` is done. -/
theorem mask_clear (bm : IterableBitmap) (index k : ℕ) :
    (bm.clear SIZE index).mask k =
      if k = 0 then clearBit64 index (bm.mask 0)
      else if 0 < levelSize SIZE k ∧ (bm.clear SIZE index).mask (k - 1) (index / 64 ^ k) = 0#64
      then clearBit64 (index / 64 ^ k) (bm.mask k)
      else bm.mask k := by
  simp only [clear, mask_clearLevel, modify_mask]
  match k with
  | 0 => simp
  | 1 | 2 | 3 | 4 => simp
  | k + 5 => simp [levelSize]

/-! ### What the bitmap holds -/

/-- `index` is in the bitmap: its bit of level `0` is set. -/
def Mem (bm : IterableBitmap) (index : ℕ) : Prop := (bm.mask 0 (index / 64)).getLsbD (index % 64)

/-- The bit of level `k` for block `x` of that level. -/
def Bit (bm : IterableBitmap) (k x : ℕ) : Prop := (bm.mask k (x / 64)).getLsbD (x % 64)

variable (SIZE) in
/-- The invariant of the bitmap: members are below `SIZE`, and at every level in use the bit of
a block is set exactly when the block holds a member. -/
structure Wf (bm : IterableBitmap) : Prop where
  lt_size : ∀ i, bm.Mem i → i < SIZE
  summary : ∀ k < levels SIZE, ∀ x, bm.Bit k x ↔ Occ bm.Mem 64 k x

theorem bit_zero_iff (bm : IterableBitmap) (x : ℕ) : bm.Bit 0 x ↔ bm.Mem x := Iff.rfl

theorem word_eq_zero_iff (bm : IterableBitmap) (k j : ℕ) :
    bm.mask k j = 0#64 ↔ ∀ b < 64, ¬bm.Bit k (64 * j + b) := by
  rw [Bits.eq_zero_iff]
  refine forall₂_congr fun b hb => ?_
  simp only [Bit, Nat.mul_add_div (by decide : 0 < 64), Nat.div_eq_of_lt hb, Nat.add_zero,
    Nat.mul_add_mod, Nat.mod_eq_of_lt hb, Bool.not_eq_true]

theorem beq_div_and_beq_mod (x c : ℕ) : (x / 64 == c / 64 && x % 64 == c % 64) = (x == c) := by
  rw [Bool.eq_iff_iff]
  simp only [Bool.and_eq_true, beq_iff_eq]
  omega

theorem bit_set (bm : IterableBitmap) (index k x : ℕ) (hk : k = 0 ∨ 0 < levelSize SIZE k) :
    (bm.set SIZE index).Bit k x ↔ bm.Bit k x ∨ x = index / 64 ^ k := by
  simp only [Bit, mask_set, if_pos hk, getLsbD_setBit64, beq_div_and_beq_mod, Bool.or_eq_true,
    beq_iff_eq]

theorem mem_set (bm : IterableBitmap) (index i : ℕ) :
    (bm.set SIZE index).Mem i ↔ bm.Mem i ∨ i = index := by
  have : (bm.set SIZE index).Bit 0 i ↔ bm.Bit 0 i ∨ i = index / 64 ^ 0 :=
    bit_set bm index 0 i (.inl rfl)
  simpa [bit_zero_iff] using this

theorem mem_clear (bm : IterableBitmap) (index i : ℕ) :
    (bm.clear SIZE index).Mem i ↔ bm.Mem i ∧ i ≠ index := by
  rw [Mem, mask_clear, if_pos rfl, getLsbD_clearBit64, beq_div_and_beq_mod]
  simp [Mem]

theorem occ_set (bm : IterableBitmap) (index k x : ℕ) :
    Occ (bm.set SIZE index).Mem 64 k x ↔ Occ bm.Mem 64 k x ∨ x = index / 64 ^ k := by
  simp only [Occ, mem_set]
  constructor
  · rintro ⟨y, hy | rfl, rfl⟩
    · exact .inl ⟨y, hy, rfl⟩
    · exact .inr rfl
  · rintro (⟨y, hy, rfl⟩ | rfl)
    · exact ⟨y, .inl hy, rfl⟩
    · exact ⟨index, .inr rfl, rfl⟩

/-- Clearing `index` changes no other block than the one of `index`. -/
theorem occ_clear_of_ne (bm : IterableBitmap) {index k x : ℕ} (hx : x ≠ index / 64 ^ k) :
    Occ (bm.clear SIZE index).Mem 64 k x ↔ Occ bm.Mem 64 k x := by
  simp only [Occ, mem_clear]
  constructor
  · rintro ⟨y, ⟨hy, -⟩, rfl⟩
    exact ⟨y, hy, rfl⟩
  · rintro ⟨y, hy, rfl⟩
    exact ⟨y, ⟨hy, by rintro rfl; exact hx rfl⟩, rfl⟩

theorem occ_of_occ_clear (bm : IterableBitmap) {index k x : ℕ}
    (h : Occ (bm.clear SIZE index).Mem 64 k x) : Occ bm.Mem 64 k x := by
  obtain ⟨y, hy, rfl⟩ := h
  exact ⟨y, ((mem_clear bm index y).1 hy).1, rfl⟩

/-- `set` keeps the invariant. -/
theorem wf_set {bm : IterableBitmap} (h : bm.Wf SIZE) {index : ℕ} (hsize : index < SIZE) :
    (bm.set SIZE index).Wf SIZE where
  lt_size i hi := by
    rcases (mem_set bm index i).1 hi with hi | rfl
    · exact h.lt_size i hi
    · exact hsize
  summary k hk x := by
    have hpos : k = 0 ∨ 0 < levelSize SIZE k :=
      .inr ((levelSize_pos_iff (by omega)).2 hk)
    rw [bit_set bm index k x hpos, occ_set, h.summary k hk]

/-- `clear` keeps the invariant, level by level from `0` up: the bit of the block of `index` at
level `k + 1` is cleared exactly when the word below it, already final, is zero, which is when
no member is left in the block. -/
theorem wf_clear {bm : IterableBitmap} (h : bm.Wf SIZE) {index : ℕ} (hsize : index < SIZE) :
    (bm.clear SIZE index).Wf SIZE where
  lt_size i hi := h.lt_size i ((mem_clear bm index i).1 hi).1
  summary k hk x := by
    induction k generalizing x with
    | zero => exact (bit_zero_iff _ x).trans occ_zero.symm
    | succ k ih =>
      have hpos : 0 < levelSize SIZE (k + 1) := (levelSize_pos_iff (by omega)).2 hk
      -- the word of level `k` under the block of `index` is zero exactly when the block is empty
      have hword : (bm.clear SIZE index).mask k (index / 64 ^ (k + 1)) = 0#64 ↔
          ¬Occ (bm.clear SIZE index).Mem 64 (k + 1) (index / 64 ^ (k + 1)) := by
        rw [word_eq_zero_iff, occ_succ (by decide)]
        simp only [ih (by omega), not_exists, not_and]
      have hbit : (bm.clear SIZE index).Bit (k + 1) x ↔ bm.Bit (k + 1) x ∧
          (x = index / 64 ^ (k + 1) →
            ¬(bm.clear SIZE index).mask k (index / 64 ^ (k + 1)) = 0#64) := by
        rw [Bit, mask_clear, if_neg (Nat.succ_ne_zero k), Nat.add_sub_cancel]
        split_ifs with hc
        · rw [getLsbD_clearBit64, beq_div_and_beq_mod]
          simp [Bit, hc.2]
        · have hc' : ¬(bm.clear SIZE index).mask k (index / 64 ^ (k + 1)) = 0#64 :=
            fun h0 => hc ⟨hpos, h0⟩
          exact ⟨fun h => ⟨h, fun _ => hc'⟩, And.left⟩
      by_cases hx : x = index / 64 ^ (k + 1)
      · subst hx
        rw [hbit, hword, h.summary _ hk, not_not]
        exact ⟨fun ⟨_, ho⟩ => ho rfl, fun ho => ⟨occ_of_occ_clear bm ho, fun _ => ho⟩⟩
      · rw [hbit, h.summary _ hk, occ_clear_of_ne bm hx]
        simp [hx]

/-- `get` reads membership. -/
theorem get_ne_zero_iff (bm : IterableBitmap) (index : ℕ) : bm.get index ≠ 0 ↔ bm.Mem index := by
  have hmod : index &&& 63 = index % 64 := Nat.and_two_pow_sub_one_eq_mod index 6
  rw [get, testBit, Bits.toNat_one_and_ushiftRight _ (by decide), hmod, Mem]
  split_ifs with h <;> simp [h]

/-- At the levels in use, a summary bit is set exactly when the word below it is nonzero. -/
theorem summary_iff {bm : IterableBitmap} (h : bm.Wf SIZE) {k : ℕ} (hk : k + 1 < levels SIZE)
    (j : ℕ) : (bm.mask (k + 1) (j / 64)).getLsbD (j % 64) = true ↔ bm.mask k j ≠ 0#64 := by
  change bm.Bit (k + 1) j ↔ _
  rw [h.summary _ hk, occ_succ (by decide), ne_eq, word_eq_zero_iff]
  simp only [← h.summary k (by omega), not_forall, not_not, exists_prop]

/-! ### Runs -/

end IterableBitmap

/-- A call on the bitmap. -/
inductive BitmapCall
  | set (index : ℕ)
  | clear (index : ℕ)
  deriving DecidableEq, Repr

/-- The index a call is on. -/
def BitmapCall.index : BitmapCall → ℕ
  | .set index => index
  | .clear index => index

/-- The last call on `index`, if any. -/
def lastCall (calls : List BitmapCall) (index : ℕ) : Option BitmapCall :=
  (calls.filter (·.index == index)).getLast?

theorem lastCall_nil (index : ℕ) : lastCall [] index = none := rfl

theorem lastCall_append_singleton (calls : List BitmapCall) (e : BitmapCall) (index : ℕ) :
    lastCall (calls ++ [e]) index = if e.index = index then some e else lastCall calls index := by
  unfold lastCall
  rw [List.filter_append]
  by_cases h : e.index = index
  · simp [h]
  · simp [h]

namespace IterableBitmap

variable (SIZE : ℕ)

/-- The bitmap after a call. -/
def call (bm : IterableBitmap) : BitmapCall → IterableBitmap
  | .set index => bm.set SIZE index
  | .clear index => bm.clear SIZE index

/-- A new bitmap. -/
def Init (bm : IterableBitmap) : Prop := bm = empty

/-- A call on an index below `SIZE` (`set` and `clear` assume it). -/
inductive Step : IterableBitmap → BitmapCall → IterableBitmap → Prop
  | mk {bm : IterableBitmap} {e : BitmapCall} (h : e.index < SIZE) : Step bm e (bm.call SIZE e)

/-- The bitmap after a sequence of calls. -/
def runCalls (bm : IterableBitmap) (calls : List BitmapCall) : IterableBitmap :=
  calls.foldl (call SIZE) bm

variable {SIZE}

/-- Calls on indices below `SIZE`, made on a new bitmap, are a run. -/
theorem run_runCalls {calls : List BitmapCall} (h : ∀ e ∈ calls, e.index < SIZE) :
    Run Init (Step SIZE) calls (empty.runCalls SIZE calls) := by
  induction calls using List.reverseRecOn with
  | nil => exact .start rfl
  | append_singleton calls e ih =>
    have heq : empty.runCalls SIZE (calls ++ [e]) = (empty.runCalls SIZE calls).call SIZE e := by
      simp [runCalls, List.foldl_append]
    rw [heq]
    exact .snoc (ih fun e' he' => h e' (List.mem_append_left _ he')) (.mk (h e (by simp)))

theorem wf_empty : empty.Wf SIZE where
  lt_size i h := by simp [Mem, empty] at h
  summary k _ x := by
    simp only [Bit, empty, BitVec.getLsbD_zero, Bool.false_eq_true, false_iff]
    rintro ⟨y, hy, -⟩
    simp [Mem] at hy

/-- Along every run the invariant holds, and the bitmap holds exactly the indices whose last
call was a `set`. -/
theorem wf_of_run {calls : List BitmapCall} {bm : IterableBitmap}
    (hrun : Run Init (Step SIZE) calls bm) :
    bm.Wf SIZE ∧ ∀ i, bm.Mem i ↔ lastCall calls i = some (.set i) := by
  induction hrun with
  | start h₀ =>
    subst h₀
    refine ⟨wf_empty, fun i => ?_⟩
    simp [lastCall_nil, Mem, empty]
  | @snoc calls bm e bm' _ hst ih =>
    obtain ⟨hwf, hmem⟩ := ih
    cases hst with
    | mk hlt =>
      cases e with
      | set index =>
        refine ⟨wf_set hwf hlt, fun i => ?_⟩
        rw [call, mem_set, hmem, lastCall_append_singleton]
        by_cases hi : index = i
        · subst hi
          simp [BitmapCall.index]
        · simp [BitmapCall.index, hi, Ne.symm hi]
      | clear index =>
        refine ⟨wf_clear hwf hlt, fun i => ?_⟩
        rw [call, mem_clear, hmem, lastCall_append_singleton]
        by_cases hi : index = i
        · subst hi
          simp [BitmapCall.index]
        · simp [BitmapCall.index, hi, Ne.symm hi]

end IterableBitmap

end Util

end OtelEbpf
