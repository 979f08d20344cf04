import Mathlib.Data.Nat.Bitwise

/-!
# Bits of a machine word

The bit idioms of C on a `w`-bit word, read through `BitVec.getLsbD`:

* `ctz` is `__builtin_ctzll`, the index of the lowest set bit of a nonzero word
  (`getLsbD_ctz`, `getLsbD_of_lt_ctz`, and `ctz_eq_of` which says it is the least one);
* `x &= x - 1` clears the lowest set bit and keeps the others (`getLsbD_and_sub_one`);
* `x |= 1 << b` and `x &= ~(1 << b)` set and clear bit `b` (`getLsbD_or_shiftLeft`,
  `getLsbD_and_not_shiftLeft`);
* a word is zero exactly when none of its bits is set (`eq_zero_iff`).

The trailing zeros are counted by `trailingZeros`, a scan of at most `w` bits that recurses on
the count, so that a `ctz` of a literal evaluates.
-/

namespace OtelEbpf

namespace Bits

/-- The number of trailing zero bits of `n` among its low `k` bits (`k` if they are all zero). -/
def trailingZeros (n : ℕ) : ℕ → ℕ
  | 0 => 0
  | k + 1 => if n % 2 = 1 then 0 else trailingZeros (n / 2) k + 1

theorem testBit_of_lt_trailingZeros {n k i : ℕ} (h : i < trailingZeros n k) :
    n.testBit i = false := by
  induction k generalizing n i with
  | zero => simp [trailingZeros] at h
  | succ k ih =>
    unfold trailingZeros at h
    split_ifs at h with hodd
    · omega
    · cases i with
      | zero => simpa [Nat.testBit_zero] using hodd
      | succ i =>
        rw [Nat.testBit_succ]
        exact ih (by omega)

/-- The scan stops at a set bit when there is one among the `k` it looks at. -/
theorem testBit_trailingZeros {n k i : ℕ} (hi : i < k) (h : n.testBit i = true) :
    n.testBit (trailingZeros n k) = true := by
  induction k generalizing n i with
  | zero => omega
  | succ k ih =>
    unfold trailingZeros
    split_ifs with hodd
    · simpa [Nat.testBit_zero] using hodd
    · -- bit `0` is clear, so the set bit is above it and the scan goes on in `n / 2`
      cases i with
      | zero => simp [Nat.testBit_zero, hodd] at h
      | succ i =>
        rw [Nat.testBit_succ] at h ⊢
        exact ih (by omega) h

variable {w : ℕ}

/-- `__builtin_ctzll`: the index of the lowest set bit of a word (`w` for the zero word, where
the builtin is undefined). -/
def ctz (x : BitVec w) : ℕ := trailingZeros x.toNat w

theorem exists_getLsbD_of_ne_zero {x : BitVec w} (hx : x ≠ 0#w) :
    ∃ i < w, x.getLsbD i = true := by
  by_contra h
  apply hx
  apply BitVec.eq_of_getLsbD_eq
  intro i hi
  rw [BitVec.getLsbD_zero, Bool.eq_false_iff]
  exact fun hbit => h ⟨i, hi, hbit⟩

/-- A word is zero exactly when none of its bits is set. -/
theorem eq_zero_iff (x : BitVec w) : x = 0#w ↔ ∀ i < w, x.getLsbD i = false := by
  constructor
  · rintro rfl i _
    simp
  · intro h
    exact BitVec.eq_of_getLsbD_eq fun i hi => by simpa using h i hi

theorem getLsbD_ctz {x : BitVec w} (hx : x ≠ 0#w) : x.getLsbD (ctz x) = true := by
  obtain ⟨i, hi, hbit⟩ := exists_getLsbD_of_ne_zero hx
  rw [← BitVec.testBit_toNat] at hbit ⊢
  exact testBit_trailingZeros hi hbit

theorem getLsbD_of_lt_ctz {x : BitVec w} {i : ℕ} (h : i < ctz x) : x.getLsbD i = false := by
  rw [← BitVec.testBit_toNat]
  exact testBit_of_lt_trailingZeros h

theorem ctz_lt {x : BitVec w} (hx : x ≠ 0#w) : ctz x < w := by
  have h := getLsbD_ctz hx
  by_contra hge
  rw [BitVec.getLsbD_of_ge x _ (by omega)] at h
  simp at h

/-- `ctz` is the least set bit. -/
theorem ctz_eq_of {x : BitVec w} {c : ℕ} (hc : x.getLsbD c = true)
    (hlow : ∀ i < c, x.getLsbD i = false) : ctz x = c := by
  have hx : x ≠ 0#w := by
    rintro rfl
    simp at hc
  rcases Nat.lt_trichotomy (ctz x) c with hlt | heq | hgt
  · have := hlow _ hlt
    rw [getLsbD_ctz hx] at this
    simp at this
  · exact heq
  · rw [getLsbD_of_lt_ctz hgt] at hc
    simp at hc

/-- In numbers: `n &&& (n - 1)` clears the lowest set bit `c` of `n`.  Below bit `c + 1`, `n`
is `2 ^ c` and `n - 1` is `2 ^ c - 1`; above it they agree. -/
theorem testBit_and_sub_one {n c : ℕ} (hc : n.testBit c = true)
    (hlow : ∀ i < c, n.testBit i = false) (i : ℕ) :
    (n &&& (n - 1)).testBit i = (n.testBit i && i != c) := by
  have hmod : n % 2 ^ (c + 1) = 2 ^ c := by
    apply Nat.eq_of_testBit_eq
    intro j
    rw [Nat.testBit_mod_two_pow, Nat.testBit_two_pow]
    rcases Nat.lt_trichotomy j c with hj | rfl | hj
    · simp [hlow j hj, show j < c + 1 by omega, show c ≠ j by omega]
    · simp [hc]
    · simp [show ¬j < c + 1 by omega, show c ≠ j by omega]
  have hlt : 2 ^ c < 2 ^ (c + 1) := Nat.pow_lt_pow_right (by decide) (by omega)
  obtain ⟨q, hq⟩ : ∃ q, n = 2 ^ (c + 1) * q + 2 ^ c :=
    ⟨n / 2 ^ (c + 1), by have := Nat.div_add_mod n (2 ^ (c + 1)); omega⟩
  have hn1 : n - 1 = 2 ^ (c + 1) * q + (2 ^ c - 1) := by
    have := Nat.two_pow_pos c
    omega
  have hbit : n.testBit i = if i < c + 1 then decide (c = i) else q.testBit (i - (c + 1)) := by
    rw [hq, Nat.testBit_two_pow_mul_add _ hlt, Nat.testBit_two_pow]
  rw [Nat.testBit_and, hn1, Nat.testBit_two_pow_mul_add _ (by omega), Nat.testBit_two_pow_sub_one,
    hbit]
  split_ifs with hi
  · rcases Nat.lt_or_ge i c with hic | hic
    · simp [show c ≠ i by omega, hic]
    · have hic : i = c := by omega
      subst hic
      simp
  · simp [show i ≠ c by omega]

/-- `x &= x - 1` clears the lowest set bit of a nonzero word and keeps the others. -/
theorem getLsbD_and_sub_one {x : BitVec w} (hx : x ≠ 0#w) (i : ℕ) :
    (x &&& (x - 1#w)).getLsbD i = (x.getLsbD i && i != ctz x) := by
  have hw : 0 < w := by
    rcases Nat.eq_zero_or_pos w with rfl | hw
    · exact absurd (Subsingleton.elim x 0#0) hx
    · exact hw
  have hle : 1#w ≤ x := by
    rw [BitVec.le_def, BitVec.toNat_ofNat, Nat.one_mod_two_pow hw]
    have : x.toNat ≠ 0 := fun h => hx (BitVec.toNat_eq.2 (by simpa using h))
    omega
  have hsub : (x - 1#w).toNat = x.toNat - 1 := by
    rw [BitVec.toNat_sub_of_le hle, BitVec.toNat_ofNat, Nat.one_mod_two_pow hw]
  have hc := getLsbD_ctz hx
  rw [← BitVec.testBit_toNat] at hc
  rw [← BitVec.testBit_toNat, BitVec.toNat_and, hsub,
    testBit_and_sub_one hc (fun j hj => by rw [BitVec.testBit_toNat]; exact getLsbD_of_lt_ctz hj),
    BitVec.testBit_toNat]

/-- `x |= 1 << b` sets bit `b`. -/
theorem getLsbD_or_shiftLeft (x : BitVec w) {b : ℕ} (hb : b < w) (i : ℕ) :
    (x ||| 1#w <<< b).getLsbD i = (x.getLsbD i || i == b) := by
  rw [BitVec.getLsbD_or, BitVec.getLsbD_shiftLeft, BitVec.getLsbD_one]
  by_cases hib : i = b
  · subst hib
    simp [hb, show 0 < w by omega]
  · by_cases hlt : i < b
    · simp [hib, hlt]
    · simp [hib, hlt, show i - b ≠ 0 by omega]

/-- `x &= ~(1 << b)` clears bit `b`. -/
theorem getLsbD_and_not_shiftLeft (x : BitVec w) (b i : ℕ) :
    (x &&& ~~~(1#w <<< b)).getLsbD i = (x.getLsbD i && i != b) := by
  rw [BitVec.getLsbD_and, BitVec.getLsbD_not, BitVec.getLsbD_shiftLeft, BitVec.getLsbD_one]
  by_cases hiw : i < w
  · by_cases hib : i = b
    · subst hib
      simp [hiw, show 0 < w by omega]
    · by_cases hlt : i < b
      · simp [hiw, hib, hlt]
      · simp [hiw, hib, hlt, show i - b ≠ 0 by omega]
  · simp [BitVec.getLsbD_of_ge x i (by omega)]

/-- `1 & (x >> i)` is bit `i` of `x`, as a number. -/
theorem toNat_one_and_ushiftRight (x : BitVec w) (hw : 0 < w) (i : ℕ) :
    (1#w &&& x >>> i).toNat = if x.getLsbD i then 1 else 0 := by
  have h : 1#w &&& x >>> i = if x.getLsbD i then 1#w else 0#w := by
    apply BitVec.eq_of_getLsbD_eq
    intro j hj
    rw [BitVec.getLsbD_and, BitVec.getLsbD_one, BitVec.getLsbD_ushiftRight]
    by_cases hj0 : j = 0
    · subst hj0
      split_ifs with hbit <;> simp [hbit, hw]
    · split_ifs <;> simp [hj0]
  rw [h]
  split_ifs
  · rw [BitVec.toNat_ofNat, Nat.one_mod_two_pow hw]
  · rfl

end Bits

end OtelEbpf
