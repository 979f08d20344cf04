import Mathlib.Data.Nat.Bitwise

/-!
# Free-running 32-bit counters

Ring buffers in C index their storage with `u32` counters that are never reset: a counter
`c` names the slot `c & (n - 1)` of a ring of `n = 2 ^ a` slots, and the fill level is the
wrapped difference `tail - head`.  Such code is correct across the wrap past `2 ^ 32` because
every quantity it looks at is the image, modulo `2 ^ 32`, of an unbounded count, and every
difference it takes is smaller than `2 ^ 32`.

This file relates the two views: a `UInt32` built with `UInt32.ofNat k` from an unbounded
count `k`, and the count itself.

* `toNat_ofNat_sub_ofNat` : a wrapped difference of two counts is their difference, as long as
  it is below `2 ^ 32`.
* `toNat_and_mask` : masking with `2 ^ a - 1` is reduction modulo `2 ^ a`.
* `ofNat_and_mask_ne` : two counts less than one lap apart name different slots.
* `mod_add_le_or_of_lap` : two aligned counts less than one lap apart name slots whose aligned
  blocks do not overlap.
* `toNat_and_not_seven` : rounding down to a multiple of 8 with `& ~7`.
* `and_ofNat_two_pow_ne_zero`, `div_mul_add_bit` : testing the bits of a length from the top.
* `signed32` : the `int` a C function returns when it returns a `u32`.
-/

namespace OtelEbpf

/-- The value of a 32-bit word converted to a two's complement `int`, as C converts an
unsigned value returned from a function declared `int` (or cast with `(int)`). -/
def signed32 (x : UInt32) : ℤ :=
  if x.toNat < 2 ^ 31 then x.toNat else x.toNat - 2 ^ 32

theorem signed32_nonneg_iff {x : UInt32} : 0 ≤ signed32 x ↔ x.toNat < 2 ^ 31 := by
  have hx := x.toNat_lt
  unfold signed32
  split_ifs with h
  · simp only [h, iff_true]
    omega
  · simp only [h, iff_false]
    omega

namespace Word

theorem toNat_ofNat_sub_ofNat {a b : ℕ} (hba : b ≤ a) (hlt : a - b < 2 ^ 32) :
    (UInt32.ofNat a - UInt32.ofNat b).toNat = a - b := by
  rw [UInt32.toNat_sub, UInt32.toNat_ofNat', UInt32.toNat_ofNat']
  omega

theorem ofNat_ne_ofNat {a b : ℕ} (hab : a < b) (hlt : b - a < 2 ^ 32) :
    UInt32.ofNat a ≠ UInt32.ofNat b := by
  intro h
  have h' := congrArg UInt32.toNat h
  rw [UInt32.toNat_ofNat', UInt32.toNat_ofNat'] at h'
  omega

theorem ofNat_add_one (k : ℕ) : UInt32.ofNat k + 1 = UInt32.ofNat (k + 1) := by
  rw [UInt32.ofNat_add]
  rfl

/-- Masking with `2 ^ a - 1` is reduction modulo `2 ^ a`. -/
theorem toNat_and_mask (x m : UInt32) {a : ℕ} (hm : m.toNat = 2 ^ a - 1) :
    (x &&& m).toNat = x.toNat % 2 ^ a := by
  rw [UInt32.toNat_and, hm, Nat.and_two_pow_sub_one_eq_mod]

/-- Counts less than one lap of a ring of `2 ^ a` slots apart name different slots. -/
theorem ofNat_and_mask_ne {j k a : ℕ} (m : UInt32) (hm : m.toNat = 2 ^ a - 1) (ha : a ≤ 32)
    (hjk : j < k) (hlap : k - j < 2 ^ a) :
    UInt32.ofNat j &&& m ≠ UInt32.ofNat k &&& m := by
  intro h
  have h' := congrArg UInt32.toNat h
  rw [toNat_and_mask _ _ hm, toNat_and_mask _ _ hm, UInt32.toNat_ofNat',
    UInt32.toNat_ofNat', Nat.mod_mod_of_dvd _ (Nat.pow_dvd_pow 2 ha),
    Nat.mod_mod_of_dvd _ (Nat.pow_dvd_pow 2 ha)] at h'
  have hdvd := Nat.sub_mod_eq_zero_of_mod_eq h'.symm
  rw [Nat.mod_eq_of_lt hlap] at hdvd
  omega

/-- Two counts that are multiples of `w`, less than one lap of a ring of `n` slots apart (with
`w ∣ n`), name slots whose blocks of `w` slots do not overlap. -/
theorem mod_add_le_or_of_lap {x y n w : ℕ} (hw : w ∣ n) (hx : x % w = 0) (hy : y % w = 0)
    (hxy : x < y) (hlap : y - x < n) : x % n + w ≤ y % n ∨ y % n + w ≤ x % n := by
  have hne : x % n ≠ y % n := by
    intro h
    have hdvd := Nat.sub_mod_eq_zero_of_mod_eq h.symm
    rw [Nat.mod_eq_of_lt hlap] at hdvd
    omega
  obtain ⟨p, hp⟩ := Nat.dvd_of_mod_eq_zero (show x % n % w = 0 by rwa [Nat.mod_mod_of_dvd _ hw])
  obtain ⟨q, hq⟩ := Nat.dvd_of_mod_eq_zero (show y % n % w = 0 by rwa [Nat.mod_mod_of_dvd _ hw])
  rw [hp, hq] at hne ⊢
  have hpq : p ≠ q := fun h => hne (h ▸ rfl)
  rcases Nat.lt_or_gt_of_ne hpq with h | h
  · exact Or.inl (by simpa [Nat.mul_succ] using Nat.mul_le_mul_left w (Nat.succ_le_of_lt h))
  · exact Or.inr (by simpa [Nat.mul_succ] using Nat.mul_le_mul_left w (Nat.succ_le_of_lt h))

/-- The slot of a count wrapped modulo `2 ^ 32`, in a ring whose size divides `2 ^ 32`, is the
slot of the count. -/
theorem mod_add_of_dvd {x y n : ℕ} (hn : n ∣ 2 ^ 32) : (x % 2 ^ 32 + y) % n = (x + y) % n := by
  rw [Nat.add_mod, Nat.mod_mod_of_dvd _ hn, ← Nat.add_mod]

/-- Moving forward by at most one lap from slot `x % n` wraps at most once. -/
theorem mod_add_eq_of_le {x d n : ℕ} (hn : 0 < n) (hd : d ≤ n) :
    (x + d) % n = if x % n + d < n then x % n + d else x % n + d - n := by
  rw [← Nat.mod_add_mod]
  have hx := Nat.mod_lt x hn
  split_ifs with h
  · exact Nat.mod_eq_of_lt h
  · rw [Nat.mod_eq_sub_mod (by omega), Nat.mod_eq_of_lt (by omega)]

/-- `x & ~7` rounds `x` down to a multiple of 8. -/
theorem toNat_and_not_seven (x : UInt32) : (x &&& ~~~7).toNat = x.toNat / 8 * 8 := by
  have hM : (~~~7 : UInt32).toNat = (2 ^ 29 - 1) * 2 ^ 3 := rfl
  have h8 : x.toNat / 8 * 8 = x.toNat / 2 ^ 3 * 2 ^ 3 := rfl
  rw [UInt32.toNat_and, hM, h8]
  apply Nat.eq_of_testBit_eq
  intro i
  rw [Nat.testBit_and, Nat.testBit_mul_two_pow, Nat.testBit_mul_two_pow,
    Nat.testBit_two_pow_sub_one, Nat.testBit_div_two_pow]
  by_cases hi : 3 ≤ i
  · -- above the three low bits the mask keeps the bits of `x`, which stop at bit 32
    rw [Nat.sub_add_cancel hi]
    by_cases hi' : i < 32
    · simp [hi, show i - 3 < 29 by omega]
    · have hx : x.toNat < 2 ^ i :=
        Nat.lt_of_lt_of_le x.toNat_lt (Nat.pow_le_pow_right (by decide) (by omega))
      simp [hi, show ¬ i - 3 < 29 by omega, Nat.testBit_lt_two_pow hx]
  · simp [hi]

/-- Testing a bit of a `u32` with a mask. -/
theorem and_ofNat_two_pow_ne_zero {x : UInt32} {k : ℕ} (hk : k < 32) :
    x &&& UInt32.ofNat (2 ^ k) ≠ 0 ↔ x.toNat / 2 ^ k % 2 = 1 := by
  have hpow : 2 ^ k < 2 ^ 32 := Nat.pow_lt_pow_right (by decide) hk
  rw [Ne, ← UInt32.toNat_inj, UInt32.toNat_and, UInt32.toNat_ofNat_of_lt' hpow, UInt32.toNat_zero,
    Nat.and_two_pow, Nat.testBit_eq_decide_div_mod_eq]
  by_cases h : x.toNat / 2 ^ k % 2 = 1 <;> simp [h]

/-- A non-negative `int` stored in a `u32`. -/
theorem ofInt_natCast (k : ℕ) : UInt32.ofInt k = UInt32.ofNat k := by
  apply UInt32.toNat_inj.1
  rw [UInt32.ofInt, UInt32.toNat_ofNat', UInt32.toNat_ofNat']
  omega

/-- A count below `2 ^ 32` widened from `u32` to `u64`. -/
theorem toUInt64_ofNat {k : ℕ} (h : k < 2 ^ 32) : (UInt32.ofNat k).toUInt64 = UInt64.ofNat k := by
  apply UInt64.toNat_inj.1
  rw [UInt32.toNat_toUInt64, UInt32.toNat_ofNat_of_lt' h,
    UInt64.toNat_ofNat_of_lt' (show k < 2 ^ 64 by omega)]

/-- Taking the bits of `n` from the top down: the part of `n` above bit `b` and bit `b`
together are the part of `n` from bit `b` up. -/
theorem div_mul_add_bit (n b : ℕ) : n / (2 * b) * (2 * b) + b * (n / b % 2) = n / b * b := by
  have hdiv : n / (2 * b) = n / b / 2 := by
    rw [Nat.mul_comm, Nat.div_div_eq_div_mul]
  calc n / (2 * b) * (2 * b) + b * (n / b % 2)
      = b * (2 * (n / b / 2) + n / b % 2) := by
        rw [hdiv, Nat.mul_add]
        ac_rfl
    _ = n / b * b := by rw [Nat.div_add_mod, Nat.mul_comm]

end Word

end OtelEbpf
