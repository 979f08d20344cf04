import OtelEbpf.Util.IterableBitmap

/-!
# The iterator of the iterable bitmap

`IterableBitmap::iterator` (`util/iterable_bitmap.h`) visits the members of the bitmap in
increasing order.  For every level `k` it keeps the bits of the current word of level `k` not
yet visited, `mask[k]`, and the offset `i[k]` of the words of level `k - 1` under that word;
`operator*` is `i[0]`, and `operator!=` against `end()` asks whether the root's bits are used
up.  `begin()` goes down from the root along the lowest set bits (`descend`); `operator++`
clears the lowest bit of `mask[0]`, and whenever a word is used up clears the lowest bit of the
level above and comes back down (`carry`).

The iterator is *on block `x` of level `k`* (`Path`) when `x` holds a member and, for every
level `k + m` in use, `mask[k + m]` holds the occupied blocks of the parent of the ancestor
`x / 64 ^ m` from that ancestor on (a `Blocks.Window`), with `i[k + m + 1]` the offset of the
words under the ancestor `x / 64 ^ (m + 1)`.  One step of the cascade at level `k` moves the
iterator to the next occupied block of level `k`, or leaves it at `end()` when there is none
(`carry_spec`); a whole `operator++` moves it to the next member (`increment_spec`).

* `indices_of_run` : for `0 < SIZE ≤ 2 ^ 30` and every run of `set` and `clear` calls on
  indices below `SIZE`, `get(i)` is nonzero exactly when the last call on `i` was a `set`, the
  range-for over the bitmap visits exactly those indices, each once and in increasing order,
  and a summary bit is set exactly when the word below it is nonzero.
-/

namespace OtelEbpf

namespace Util

open Blocks IterableBitmap

/-- `IterableBitmap::iterator`, without its `bitmap` pointer, which is the bitmap argument of
`increment`. -/
structure Iterator where
  i : ℕ → ℕ
  mask : ℕ → BitVec 64

namespace Iterator

variable (SIZE : ℕ)

/-- `operator*`. -/
def deref (it : Iterator) : ℕ := it.i 0

/-- `operator!=` against `end()`: `mask[levels - 1] != 0`. -/
def neEnd (it : Iterator) : Bool := it.mask (levels SIZE - 1) != 0#64

/-- The offset of the words under the current word of level `k`: `(l<k> > 0) ? i[k] : 0`. -/
def base (k : ℕ) (it : Iterator) : ℕ := if 0 < levelSize SIZE k then it.i k else 0

/-- Down from level `k ≥ 1`: `i[k] = __builtin_ctzll(mask[k]) + base(k + 1);
mask[k - 1] = bitmap->mask<k-1>[i[k]]; i[k] <<= 6;`. -/
def descend (bm : IterableBitmap) (k : ℕ) (it : Iterator) : Iterator :=
  let ik := Bits.ctz (it.mask k) + base SIZE (k + 1) it
  ⟨Function.update it.i k (ik <<< 6), Function.update it.mask (k - 1) (bm.mask (k - 1) ik)⟩

/-- The last step of `begin()` and `operator++`: `i[0] = __builtin_ctzll(mask[0]) + base(1)`. -/
def leaf (it : Iterator) : Iterator :=
  ⟨Function.update it.i 0 (Bits.ctz (it.mask 0) + base SIZE 1 it), it.mask⟩

/-- The cascade of `operator++` from level `k`: `mask[k] &= mask[k] - 1`; if the word is used
up, return at the root (`true`: the iterator is now `end()`), or go on at level `k + 1` and
come back down to level `k`.  (The source returns when `levels == k + 1`; the cascade only
runs at levels in use, where this is `levels ≤ k + 1`.) -/
def carry (bm : IterableBitmap) (k : ℕ) (it : Iterator) : Iterator × Bool :=
  let m := it.mask k &&& (it.mask k - 1#64)
  let it : Iterator := ⟨it.i, Function.update it.mask k m⟩
  if m = 0#64 then
    if h : levels SIZE ≤ k + 1 then (it, true)
    else
      let r := carry bm (k + 1) it
      if r.2 then r else (descend SIZE bm (k + 1) r.1, false)
  else (it, false)
termination_by 5 - k
decreasing_by
  have := levels_le_five SIZE
  omega

/-- `operator++`. -/
def increment (bm : IterableBitmap) (it : Iterator) : Iterator :=
  let r := carry SIZE bm 0 it
  if r.2 then r.1 else leaf SIZE r.1

end Iterator

namespace IterableBitmap

variable (SIZE : ℕ)

/-- The root word of `begin()`: word `0` of the highest level with words. -/
def root (bm : IterableBitmap) : BitVec 64 :=
  if 0 < l4 SIZE then bm.mask 4 0
  else if 0 < l3 SIZE then bm.mask 3 0
  else if 0 < l2 SIZE then bm.mask 2 0
  else if 0 < l1 SIZE then bm.mask 1 0
  else bm.mask 0 0

/-- A step down in `begin()` at level `k`, taken when the level has words. -/
def descendIf (bm : IterableBitmap) (k : ℕ) (it : Iterator) : Iterator :=
  if 0 < levelSize SIZE k then Iterator.descend SIZE bm k it else it

/-- `begin()`.  The source leaves the entries it does not set indeterminate; here they are
`0`. -/
def begin (bm : IterableBitmap) : Iterator :=
  let res : Iterator := ⟨fun _ => 0, Function.update (fun _ => 0#64) (levels SIZE - 1) (root SIZE bm)⟩
  if root SIZE bm = 0#64 then res
  else
    Iterator.leaf SIZE
      (descendIf SIZE bm 1 (descendIf SIZE bm 2 (descendIf SIZE bm 3 (descendIf SIZE bm 4 res))))

/-- The loop `for (auto it = begin(); it != end(); ++it)` from `it`, collecting `*it`, with at
most `fuel` tests of `it != end()`. -/
def walk (bm : IterableBitmap) : ℕ → Iterator → Option (List ℕ)
  | 0, _ => none
  | fuel + 1, it =>
    if it.neEnd SIZE then (walk bm fuel (it.increment SIZE bm)).map (it.deref :: ·) else some []

/-- The indices a range-for over the bitmap visits (`for (auto i : allocated_)` in `Pool`). -/
def iterate (bm : IterableBitmap) (fuel : ℕ) : Option (List ℕ) := walk SIZE bm fuel (begin SIZE bm)

end IterableBitmap

namespace Iterator

variable {SIZE : ℕ} {bm : IterableBitmap}

theorem neEnd_eq_true_iff (it : Iterator) :
    it.neEnd SIZE = true ↔ it.mask (levels SIZE - 1) ≠ 0#64 := by
  simp [neEnd]

/-- The ancestor `m + 1` levels up is the ancestor `m` levels above the parent. -/
theorem div_pow_succ (x m : ℕ) : x / 64 ^ (m + 1) = x / 64 / 64 ^ m := by
  rw [pow_succ', Nat.div_div_eq_div_mul]

variable (SIZE bm) in
/-- The levels from `k` up are on block `x` of level `k`. -/
structure Path (k x : ℕ) (it : Iterator) : Prop where
  occ : Occ bm.Mem 64 k x
  window : ∀ m, k + m < levels SIZE →
    Window bm.Mem 64 (k + m) (x / 64 ^ m) (fun b => (it.mask (k + m)).getLsbD b = true)
  index : ∀ m, k + m + 1 < levels SIZE → it.i (k + m + 1) = (x / 64 ^ (m + 1)) <<< 6

variable (SIZE bm) in
/-- What a step of the cascade at level `k` from block `x` leads to: the next occupied block,
or `end()` when there is none. -/
def Carried (k x : ℕ) : Iterator × Bool → Prop
  | (it, false) => ∃ x', IsNext bm.Mem 64 k x x' ∧ Path SIZE bm k x' it
  | (it, true) => NoneAfter bm.Mem 64 k x ∧ it.mask (levels SIZE - 1) = 0#64

section Path

variable {k x : ℕ} {it : Iterator}

theorem Path.congr (hp : Path SIZE bm k x it) {it' : Iterator}
    (hmask : ∀ j, k ≤ j → it'.mask j = it.mask j) (hi : ∀ j, k < j → it'.i j = it.i j) :
    Path SIZE bm k x it' where
  occ := hp.occ
  window m hm := by
    rw [hmask _ (by omega)]
    exact hp.window m hm
  index m hm := by
    rw [hi _ (by omega)]
    exact hp.index m hm

theorem Path.window_zero (hp : Path SIZE bm k x it) (hk : k < levels SIZE) :
    Window bm.Mem 64 k x (fun b => (it.mask k).getLsbD b = true) := by
  simpa using hp.window 0 hk

/-- The levels above `k` are on the parent of `x`. -/
theorem Path.up (hp : Path SIZE bm k x it) : Path SIZE bm (k + 1) (x / 64) it where
  occ := occ_up hp.occ
  window m hm := by
    have := hp.window (m + 1) (by omega)
    rwa [div_pow_succ, show k + (m + 1) = k + 1 + m by omega] at this
  index m hm := by
    have := hp.index (m + 1) (by omega)
    rwa [div_pow_succ, show k + (m + 1) + 1 = k + 1 + m + 1 by omega] at this

/-- Moving to another block `x'` of the same parent changes only `mask[k]`. -/
theorem Path.sibling (hp : Path SIZE bm k x it) {x' : ℕ} {w : BitVec 64} (hx' : x' / 64 = x / 64)
    (hocc : Occ bm.Mem 64 k x') (hw : Window bm.Mem 64 k x' (fun b => w.getLsbD b = true)) :
    Path SIZE bm k x' ⟨it.i, Function.update it.mask k w⟩ where
  occ := hocc
  window m hm := by
    cases m with
    | zero => simpa using hw
    | succ m =>
      simp only [Function.update_of_ne (show k + (m + 1) ≠ k by omega)]
      rw [div_pow_succ, hx', ← div_pow_succ]
      exact hp.window (m + 1) hm
  index m hm := by
    simp only
    rw [div_pow_succ, hx', ← div_pow_succ]
    exact hp.index m hm

/-- `mask[k] &= mask[k] - 1` clears the bit of `x` from the window of `x`. -/
theorem Path.getLsbD_clear (hp : Path SIZE bm k x it) (hk : k < levels SIZE) (b : ℕ) :
    (it.mask k &&& (it.mask k - 1#64)).getLsbD b = true ↔
      (it.mask k).getLsbD b = true ∧ b ≠ x % 64 := by
  have hw := hp.window_zero hk
  obtain ⟨hbit, hlow⟩ := hw.lowest (by decide) hp.occ
  have hne : it.mask k ≠ 0#64 := by
    rintro h0
    rw [h0, BitVec.getLsbD_zero] at hbit
    exact Bool.false_ne_true hbit
  have hctz : Bits.ctz (it.mask k) = x % 64 :=
    Bits.ctz_eq_of hbit fun b hb => Bool.eq_false_iff.2 (hlow b hb)
  rw [Bits.getLsbD_and_sub_one hne, hctz]
  simp

end Path

section Geometry

variable (hwf : bm.Wf SIZE) (hmax : SIZE ≤ 2 ^ 30)
include hwf

theorem size_pos_of_occ {k x : ℕ} (hx : Occ bm.Mem 64 k x) : 0 < SIZE := by
  obtain ⟨y, hy, -⟩ := hx
  have := hwf.lt_size y hy
  omega

include hmax

/-- Every occupied block of level `k` lies below `64 ^ (levels - k)`: the root covers them. -/
theorem occ_lt_pow {k x : ℕ} (hk : k ≤ levels SIZE) (hx : Occ bm.Mem 64 k x) :
    x < 64 ^ (levels SIZE - k) := by
  obtain ⟨y, hy, rfl⟩ := hx
  have h₁ := hwf.lt_size y hy
  have h₂ := size_le_pow_levels hmax
  rw [Nat.div_lt_iff_lt_mul (Nat.pow_pos (by decide)), ← pow_add, Nat.sub_add_cancel hk]
  omega

/-- The index of the block a path is on, as `descend` and `leaf` compute it:
`__builtin_ctzll(mask[k]) + base(k + 1)`. -/
theorem Path.ctz_add_base {k x : ℕ} {it : Iterator} (hp : Path SIZE bm k x it)
    (hk : k < levels SIZE) : Bits.ctz (it.mask k) + base SIZE (k + 1) it = x := by
  have hsize := size_pos_of_occ hwf hp.occ
  obtain ⟨hbit, hlow⟩ := (hp.window_zero hk).lowest (by decide) hp.occ
  have hctz : Bits.ctz (it.mask k) = x % 64 :=
    Bits.ctz_eq_of hbit fun b hb => Bool.eq_false_iff.2 (hlow b hb)
  have hx := Nat.div_add_mod x 64
  rw [hctz, base]
  split_ifs with hpos
  · rw [hp.index 0 ((levelSize_pos_iff hsize).1 hpos), Nat.shiftLeft_eq, pow_one]
    omega
  · -- at the root `x` is one of the `64` blocks of the root word
    have hL : levels SIZE = k + 1 := by
      have := mt (levelSize_pos_iff hsize).2 hpos
      omega
    have := occ_lt_pow hwf hmax hk.le hp.occ
    rw [hL, show k + 1 - k = 1 by omega, pow_one] at this
    omega

/-- One level down: from a path on `z` at level `k + 1`, `descend` is on the first occupied part
of `z`. -/
theorem Path.descend {k z : ℕ} {it : Iterator} (hp : Path SIZE bm (k + 1) z it)
    (hk : k + 1 < levels SIZE) :
    Path SIZE bm k (64 * z + Bits.ctz (bm.mask k z)) (descend SIZE bm (k + 1) it) ∧
      (64 * z + Bits.ctz (bm.mask k z)) / 64 = z ∧
      ∀ y, y / 64 = z → y < 64 * z + Bits.ctz (bm.mask k z) → ¬Occ bm.Mem 64 k y := by
  have hik := hp.ctz_add_base hwf hmax hk
  -- bit `b` of word `z` of level `k` marks the part `64 z + b` of `z`
  have hz : ∀ b < 64, (bm.mask k z).getLsbD b = true ↔ Occ bm.Mem 64 k (64 * z + b) := by
    intro b hb
    have := hwf.summary k (by omega) (64 * z + b)
    rwa [Bit, Nat.mul_add_div (by decide), Nat.div_eq_of_lt hb, Nat.add_zero, Nat.mul_add_mod,
      Nat.mod_eq_of_lt hb] at this
  have hne : bm.mask k z ≠ 0#64 := by
    obtain ⟨b, hb, hocc⟩ := (occ_succ (by decide)).1 hp.occ
    intro h0
    have := (hz b hb).2 hocc
    rw [h0, BitVec.getLsbD_zero] at this
    exact Bool.false_ne_true this
  have hc := Bits.ctz_lt hne
  obtain ⟨hocc, hw, hfirst⟩ := Window.first (by decide) hz hc (Bits.getLsbD_ctz hne)
    fun b hb => by rw [Bits.getLsbD_of_lt_ctz hb]; exact Bool.false_ne_true
  have hx'z : (64 * z + Bits.ctz (bm.mask k z)) / 64 = z := by
    rw [Nat.mul_add_div (by decide), Nat.div_eq_of_lt hc, Nat.add_zero]
  refine ⟨⟨hocc, fun m hm => ?_, fun m hm => ?_⟩, hx'z, hfirst⟩
  · simp only [Iterator.descend, hik, Nat.add_sub_cancel]
    cases m with
    | zero => simpa using hw
    | succ m =>
      rw [Function.update_of_ne (by omega), div_pow_succ, hx'z,
        show k + (m + 1) = k + 1 + m by omega]
      exact hp.window m (by omega)
  · simp only [Iterator.descend, hik]
    cases m with
    | zero => simp [hx'z]
    | succ m =>
      rw [Function.update_of_ne (by omega), div_pow_succ, hx'z,
        show k + (m + 1) + 1 = k + 1 + m + 1 by omega]
      exact hp.index m (by omega)

end Geometry

section Carry

variable {k x : ℕ} {it : Iterator}

/-- With `mask[k]` used up, no block after `x` in its parent is occupied. -/
theorem Path.none_of_clear_eq_zero (hp : Path SIZE bm k x it) (hk : k < levels SIZE)
    (hm : it.mask k &&& (it.mask k - 1#64) = 0#64) :
    ∀ y, y / 64 = x / 64 → x < y → ¬Occ bm.Mem 64 k y := by
  refine (hp.window_zero hk).none_of_clear (by decide) fun b _ hbit => ?_
  by_contra hne
  have := (hp.getLsbD_clear hk b).2 ⟨hbit, hne⟩
  rw [hm, BitVec.getLsbD_zero] at this
  exact Bool.false_ne_true this

/-- Clearing a bit of `mask[k]` leaves the levels above on the parent. -/
theorem Path.up_update (hp : Path SIZE bm k x it) (w : BitVec 64) :
    Path SIZE bm (k + 1) (x / 64) ⟨it.i, Function.update it.mask k w⟩ :=
  hp.up.congr (fun _ hj => Function.update_of_ne (by omega) _ _) fun _ _ => rfl

theorem carried_of_up_true (hnone : ∀ y, y / 64 = x / 64 → x < y → ¬Occ bm.Mem 64 k y)
    {r : Iterator × Bool} (hr : Carried SIZE bm (k + 1) (x / 64) r) (h2 : r.2 = true) :
    Carried SIZE bm k x r := by
  obtain ⟨it', b⟩ := r
  simp only at h2
  subst h2
  exact ⟨noneAfter_of_parent hnone hr.1, hr.2⟩

theorem carried_of_up_false (hwf : bm.Wf SIZE) (hmax : SIZE ≤ 2 ^ 30)
    (hnone : ∀ y, y / 64 = x / 64 → x < y → ¬Occ bm.Mem 64 k y) (hk : k + 1 < levels SIZE)
    {r : Iterator × Bool} (hr : Carried SIZE bm (k + 1) (x / 64) r) (h2 : ¬r.2 = true) :
    Carried SIZE bm k x (descend SIZE bm (k + 1) r.1, false) := by
  obtain ⟨it', b⟩ := r
  cases b with
  | false =>
    obtain ⟨z, hnext, hpz⟩ := hr
    obtain ⟨hp', hx'z, hfirst⟩ := hpz.descend hwf hmax hk
    exact ⟨_, isNext_of_parent hnone hnext hx'z hp'.occ hfirst, hp'⟩
  | true => simp at h2

/-- **One step of the cascade.**  From a path on block `x` of level `k`, `carry` at level `k`
moves to the next occupied block of level `k`, or leaves the iterator at `end()` when there is
none.  The induction follows the recursion of `carry` up the levels. -/
theorem carry_spec (hwf : bm.Wf SIZE) (hmax : SIZE ≤ 2 ^ 30) :
    k < levels SIZE → ∀ x, Path SIZE bm k x it → Carried SIZE bm k x (carry SIZE bm k it) := by
  fun_induction carry SIZE bm k it with
  | case1 k it m it₁ hm htop =>
    -- the word of the root is used up: nothing is left after `x`
    intro hk x hp
    have hL : levels SIZE = k + 1 := by omega
    refine ⟨noneAfter_of_top (fun y hy => ?_) hp.occ (hp.none_of_clear_eq_zero hk hm), ?_⟩
    · have := occ_lt_pow hwf hmax hk.le hy
      rwa [hL, show k + 1 - k = 1 by omega, pow_one] at this
    · show Function.update it.mask k m (levels SIZE - 1) = 0#64
      rw [hL, Nat.add_sub_cancel, Function.update_self]
      exact hm
  | case2 k it m it₁ hm htop r hr ih =>
    -- the level above reached `end()`
    intro hk x hp
    exact carried_of_up_true (hp.none_of_clear_eq_zero hk hm) (ih (by omega) _ (hp.up_update m)) hr
  | case3 k it m it₁ hm htop r hr ih =>
    -- the level above moved to the next occupied parent: come down into it
    intro hk x hp
    exact carried_of_up_false hwf hmax (hp.none_of_clear_eq_zero hk hm) (by omega)
      (ih (by omega) _ (hp.up_update m)) hr
  | case4 k it m it₁ hm =>
    -- a bit is left in `mask[k]`: the next occupied block is in the same parent
    intro hk x hp
    obtain ⟨hw', hnext⟩ := (hp.window_zero hk).isNext (by decide) (hp.getLsbD_clear hk)
      (Bits.ctz_lt hm) (Bits.getLsbD_ctz hm)
      fun b hb => by rw [Bits.getLsbD_of_lt_ctz hb]; exact Bool.false_ne_true
    have hx' : (64 * (x / 64) + Bits.ctz m) / 64 = x / 64 := by
      rw [Nat.mul_add_div (by decide), Nat.div_eq_of_lt (Bits.ctz_lt hm), Nat.add_zero]
    exact ⟨_, hnext, hp.sibling hx' hnext.2.1 hw'⟩

end Carry

variable (SIZE bm) in
/-- The iterator is at member `p`: on block `p` of level `0`, with `*it = p`. -/
structure At (p : ℕ) (it : Iterator) : Prop where
  path : Path SIZE bm 0 p it
  deref : it.deref = p

variable (SIZE bm) in
/-- A path on the first occupied block `z` of level `k`. -/
def Least (k z : ℕ) (it : Iterator) : Prop := Path SIZE bm k z it ∧ ∀ y < z, ¬Occ bm.Mem 64 k y

/-- A live iterator is not `end()`: the root's window of the ancestor of a member has a bit. -/
theorem At.neEnd {p : ℕ} {it : Iterator} (h : At SIZE bm p it) : it.neEnd SIZE = true := by
  have hL := one_le_levels SIZE
  have hw := h.path.window (levels SIZE - 1) (by omega)
  have hocc := occ_ancestor h.path.occ (levels SIZE - 1)
  simp only [Nat.zero_add] at hw hocc
  obtain ⟨hbit, -⟩ := hw.lowest (by decide) hocc
  rw [neEnd_eq_true_iff]
  intro h0
  rw [h0, BitVec.getLsbD_zero] at hbit
  exact Bool.false_ne_true hbit

section Walk

variable (hwf : bm.Wf SIZE) (hmax : SIZE ≤ 2 ^ 30)
include hwf hmax

theorem Path.leaf {p : ℕ} {it : Iterator} (hp : Path SIZE bm 0 p it) :
    At SIZE bm p (leaf SIZE it) where
  path := hp.congr (fun _ _ => rfl) fun _ hj => Function.update_of_ne (by omega) _ _
  deref := by
    show Function.update it.i 0 _ 0 = p
    rw [Function.update_self]
    exact hp.ctz_add_base hwf hmax (by have := one_le_levels SIZE; omega)

/-- **`operator++`** moves a live iterator to the next member, or to `end()` after the last. -/
theorem increment_spec {p : ℕ} {it : Iterator} (h : At SIZE bm p it) :
    (∃ p', IsNext bm.Mem 64 0 p p' ∧ At SIZE bm p' (increment SIZE bm it)) ∨
      (NoneAfter bm.Mem 64 0 p ∧ (increment SIZE bm it).neEnd SIZE = false) := by
  have hc := carry_spec hwf hmax (one_le_levels SIZE) p h.path
  simp only [increment]
  generalize carry SIZE bm 0 it = r at hc ⊢
  obtain ⟨it', b⟩ := r
  cases b with
  | false =>
    obtain ⟨p', hnext, hp'⟩ := hc
    exact .inl ⟨p', hnext, hp'.leaf hwf hmax⟩
  | true =>
    obtain ⟨hnone, hzero⟩ := hc
    exact .inr ⟨hnone, by simp [neEnd, hzero]⟩

/-- A step down in `begin()` keeps the iterator on the first occupied block, one level lower
when the level has words. -/
theorem descendIf_least {k z : ℕ} {it : Iterator} (hk : 1 ≤ k)
    (h : Least SIZE bm (min k (levels SIZE - 1)) z it) :
    ∃ z', Least SIZE bm (min (k - 1) (levels SIZE - 1)) z' (descendIf SIZE bm k it) := by
  have hsize := size_pos_of_occ hwf h.1.occ
  obtain ⟨j, rfl⟩ : ∃ j, k = j + 1 := ⟨k - 1, by omega⟩
  rw [Nat.add_sub_cancel]
  unfold descendIf
  split_ifs with hpos
  · have hjL := (levelSize_pos_iff hsize).1 hpos
    rw [show min (j + 1) (levels SIZE - 1) = j + 1 by omega] at h
    rw [show min j (levels SIZE - 1) = j by omega]
    obtain ⟨hp', hx'z, hfirst⟩ := h.1.descend hwf hmax hjL
    exact ⟨_, hp', least_of_first h.2 hx'z hfirst⟩
  · -- above the levels in use `begin()` does nothing
    have hjL := mt (levelSize_pos_iff hsize).2 hpos
    rw [show min j (levels SIZE - 1) = min (j + 1) (levels SIZE - 1) by omega]
    exact ⟨z, h⟩

omit hwf hmax in
theorem root_eq : root SIZE bm = bm.mask (levels SIZE - 1) 0 := by
  unfold root levels
  split_ifs <;> rfl

/-- **`begin()`** is at the least member, or is `end()` for an empty bitmap. -/
theorem begin_spec :
    (∃ p, At SIZE bm p (begin SIZE bm) ∧ ∀ y < p, ¬bm.Mem y) ∨
      ((∀ y, ¬bm.Mem y) ∧ (begin SIZE bm).neEnd SIZE = false) := by
  have hL := one_le_levels SIZE
  have hL5 := levels_le_five SIZE
  -- bit `b` of the root marks block `b` of the highest level
  have hz : ∀ b < 64, (root SIZE bm).getLsbD b = true ↔
      Occ bm.Mem 64 (levels SIZE - 1) (64 * 0 + b) := by
    intro b hb
    have := hwf.summary (levels SIZE - 1) (by omega) b
    rw [Bit, Nat.div_eq_of_lt hb, Nat.mod_eq_of_lt hb, ← root_eq] at this
    rwa [Nat.mul_zero, Nat.zero_add]
  unfold begin
  split_ifs with h0
  · -- an empty root: every member would have its top block marked in it
    refine .inr ⟨fun y hy => ?_, by simp [neEnd, h0]⟩
    have hocc := occ_ancestor (r := 64) (occ_zero.2 hy) (levels SIZE - 1)
    rw [Nat.zero_add] at hocc
    have hlt := occ_lt_pow hwf hmax (Nat.sub_le _ _) hocc
    rw [Nat.sub_sub_self hL, pow_one] at hlt
    have := (hz _ hlt).2 (by rwa [Nat.mul_zero, Nat.zero_add])
    rw [h0, BitVec.getLsbD_zero] at this
    exact Bool.false_ne_true this
  · -- the lowest bit of the root is the first occupied block of the highest level
    obtain ⟨hocc, hw, hfirst⟩ := Window.first (by decide) hz (Bits.ctz_lt h0)
      (Bits.getLsbD_ctz h0) fun b hb => by rw [Bits.getLsbD_of_lt_ctz hb]; exact Bool.false_ne_true
    have hc := Bits.ctz_lt h0
    have hroot : Least SIZE bm (min 4 (levels SIZE - 1)) (64 * 0 + Bits.ctz (root SIZE bm))
        ⟨fun _ => 0, Function.update (fun _ => 0#64) (levels SIZE - 1) (root SIZE bm)⟩ := by
      rw [show min 4 (levels SIZE - 1) = levels SIZE - 1 by omega]
      refine ⟨⟨hocc, fun m hm => ?_, fun m hm => by omega⟩, fun y hy => ?_⟩
      · obtain rfl : m = 0 := by omega
        simpa using hw
      · exact hfirst y (Nat.div_eq_of_lt (by omega)) hy
    obtain ⟨z₃, h₃⟩ := descendIf_least hwf hmax (by decide) hroot
    obtain ⟨z₂, h₂⟩ := descendIf_least hwf hmax (by decide) h₃
    obtain ⟨z₁, h₁⟩ := descendIf_least hwf hmax (by decide) h₂
    obtain ⟨p, h₀⟩ := descendIf_least hwf hmax (by decide) h₁
    rw [show min (1 - 1) (levels SIZE - 1) = 0 by omega] at h₀
    exact .inl ⟨p, h₀.1.leaf hwf hmax, fun y hy hm => h₀.2 y hy (occ_zero.2 hm)⟩

/-- **The loop from a live iterator** visits, in increasing order, the members from `p` on:
one more member at each `operator++` (induction on the fuel, which exceeds `SIZE - p`). -/
theorem walk_spec : ∀ fuel p it, At SIZE bm p it → SIZE - p < fuel →
    ∃ l, walk SIZE bm fuel it = some l ∧ l.Pairwise (· < ·) ∧ ∀ y, y ∈ l ↔ bm.Mem y ∧ p ≤ y := by
  intro fuel
  induction fuel with
  | zero => intro p it _ h; omega
  | succ fuel ih =>
    intro p it h hfuel
    have hp : bm.Mem p := occ_zero.1 h.path.occ
    have hlt := hwf.lt_size p hp
    rw [walk, if_pos h.neEnd, h.deref]
    rcases increment_spec hwf hmax h with ⟨p', ⟨hpp', hocc', hgap⟩, h'⟩ | ⟨hnone, hend⟩
    · -- the next member `p'`
      have hlt' := hwf.lt_size p' (occ_zero.1 hocc')
      obtain ⟨l, hl, hsorted, hmem⟩ := ih p' _ h' (by omega)
      refine ⟨p :: l, by rw [hl]; rfl, ?_, fun y => ?_⟩
      · exact List.Pairwise.cons (fun y hy => by have := ((hmem y).1 hy).2; omega) hsorted
      · rw [List.mem_cons, hmem]
        constructor
        · rintro (rfl | ⟨hy, hle⟩)
          · exact ⟨hp, le_rfl⟩
          · exact ⟨hy, by omega⟩
        · rintro ⟨hy, hle⟩
          rcases Nat.lt_or_eq_of_le hle with hpy | rfl
          · exact .inr ⟨hy, Nat.le_of_not_lt fun hy' => hgap y hpy hy' (occ_zero.2 hy)⟩
          · exact .inl rfl
    · -- `p` was the last member
      obtain ⟨fuel, rfl⟩ : ∃ f, fuel = f + 1 := ⟨fuel - 1, by omega⟩
      refine ⟨[p], by rw [walk, if_neg (by simp [hend])]; rfl, List.pairwise_singleton _ _,
        fun y => ?_⟩
      rw [List.mem_singleton]
      constructor
      · rintro rfl
        exact ⟨hp, le_rfl⟩
      · rintro ⟨hy, hle⟩
        by_contra hne
        exact hnone y (by omega) (occ_zero.2 hy)

/-- The range-for over a bitmap visits its members, each once and in increasing order. -/
theorem iterate_spec {fuel : ℕ} (hfuel : SIZE < fuel) :
    ∃ l, bm.iterate SIZE fuel = some l ∧ l.Pairwise (· < ·) ∧ ∀ y, y ∈ l ↔ bm.Mem y := by
  rcases begin_spec hwf hmax with ⟨p, h, hbelow⟩ | ⟨hnone, hend⟩
  · obtain ⟨l, hl, hsorted, hmem⟩ := walk_spec hwf hmax fuel p _ h (by omega)
    refine ⟨l, hl, hsorted, fun y => (hmem y).trans ⟨And.left, fun hy => ⟨hy, ?_⟩⟩⟩
    exact Nat.le_of_not_lt fun hlt => hbelow y hlt hy
  · obtain ⟨fuel, rfl⟩ : ∃ f, fuel = f + 1 := ⟨fuel - 1, by omega⟩
    refine ⟨[], by rw [iterate, walk, if_neg (by simp [hend])], List.Pairwise.nil, fun y => ?_⟩
    exact ⟨fun h => absurd h List.not_mem_nil, fun hy => absurd hy (hnone y)⟩

end Walk

end Iterator

/-- **The iterable bitmap is an ordered set of indices.**  For `SIZE ≤ 2 ^ 30` (the source's
`static_assert`), after any run of `set` and `clear` calls on indices below `SIZE`: `get(i)` is
nonzero exactly when the last call on `i` was a `set`; the range-for over the bitmap ends and
visits exactly those indices, in strictly increasing order; and at the levels in use, bit `j`
of the summary level `k + 1` is set exactly when word `j` of level `k` is nonzero. -/
theorem indices_of_run {SIZE : ℕ} {calls : List BitmapCall} {bm : IterableBitmap}
    (hmax : SIZE ≤ 2 ^ 30) (hrun : Run IterableBitmap.Init (IterableBitmap.Step SIZE) calls bm) :
    (∀ i < SIZE, bm.get i ≠ 0 ↔ lastCall calls i = some (.set i)) ∧
      (∀ fuel, SIZE < fuel → ∃ l, bm.iterate SIZE fuel = some l ∧ l.Pairwise (· < ·) ∧
        ∀ i, i ∈ l ↔ lastCall calls i = some (.set i)) ∧
      (∀ k, k + 1 < levels SIZE → ∀ j < levelSize SIZE k,
        (bm.mask (k + 1) (j / 64)).getLsbD (j % 64) = true ↔ bm.mask k j ≠ 0#64) := by
  obtain ⟨hwf, hmem⟩ := wf_of_run hrun
  refine ⟨fun i _ => (get_ne_zero_iff bm i).trans (hmem i), fun fuel hfuel => ?_,
    fun k hk j _ => summary_iff hwf hk j⟩
  obtain ⟨l, hl, hsorted, hl'⟩ := Iterator.iterate_spec hwf hmax hfuel
  exact ⟨l, hl, hsorted, fun i => (hl' i).trans (hmem i)⟩

/-- A bitmap of `100` indices, two levels: after `set(3)`, `set(70)`, `clear(3)`, `set(99)`
the range-for visits the indices last set. -/
theorem indices_of_run_hundred :
    (100 : ℕ) ≤ 2 ^ 30 ∧
      Run IterableBitmap.Init (IterableBitmap.Step 100) [.set 3, .set 70, .clear 3, .set 99]
        (IterableBitmap.empty.runCalls 100 [.set 3, .set 70, .clear 3, .set 99]) ∧
      ∃ l, (IterableBitmap.empty.runCalls 100 [.set 3, .set 70, .clear 3, .set 99]).iterate 100 101 =
          some l ∧ l.Pairwise (· < ·) ∧
        ∀ i, i ∈ l ↔ lastCall [.set 3, .set 70, .clear 3, .set 99] i = some (.set i) := by
  have hrun : Run IterableBitmap.Init (IterableBitmap.Step 100) [.set 3, .set 70, .clear 3, .set 99]
      (IterableBitmap.empty.runCalls 100 [.set 3, .set 70, .clear 3, .set 99]) := by
    refine IterableBitmap.run_runCalls fun e he => ?_
    simp only [List.mem_cons, List.not_mem_nil, or_false] at he
    rcases he with rfl | rfl | rfl | rfl <;> decide
  exact ⟨by decide, hrun, (indices_of_run (by decide) hrun).2.1 101 (by decide)⟩

end Util

end OtelEbpf
