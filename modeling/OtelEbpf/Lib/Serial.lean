import Mathlib

/-!
# 16-bit serial numbers

A counter of 16 bits that is never reset, such as a clock's timeslot, wraps past `2 ^ 16`.
Code that compares two such counters does not compare them as numbers: it takes their
difference modulo `2 ^ 16` and reads it as a signed 16-bit value, so that `b` is *ahead* of
`a` when `b - a`, read so, is positive.  This is correct across the wrap as long as the two
counters are less than half the circle apart.

In C the signed view is a conversion to `s16` (`signed16` of the bits, `toS16` of an `int`),
and `x += d` on a `u16` with an `s16` `d` is `UInt16.ofInt (x + d)`.  The lemmas say how the
signed difference behaves under these operations:

* `toS16_signed16_sub` : `(s16)b - a` converted back to `s16` is the signed difference;
* `ofInt_add_signed16_sub` : adding the signed difference to `a` gives `b`;
* `signed16_ofInt_add_sub` : after advancing by `d` with `0 ≤ d < 2 ^ 15`, the signed
  difference is `d`.

Counters that all lie in one *window*, at or ahead of a base `b` by less than `2 ^ 15`, are
ordered by their leads over `b` (`signed16_sub_of_window`), and a counter moved forward by `a`
loses `a` of its lead over every counter ahead of it (`signed16_sub_ofInt_add`).
-/

namespace OtelEbpf

/-- The value of a 16-bit word read as a two's complement `s16`. -/
def signed16 (x : UInt16) : ℤ :=
  if x.toNat < 2 ^ 15 then x.toNat else x.toNat - 2 ^ 16

/-- C's conversion of an `int` to `s16`: reduction modulo `2 ^ 16` into `[-2 ^ 15, 2 ^ 15)`. -/
def toS16 (z : ℤ) : ℤ := signed16 (UInt16.ofInt z)

namespace Serial

theorem toNat_ofInt (z : ℤ) : ((UInt16.ofInt z).toNat : ℤ) = z % 2 ^ 16 := by
  rw [UInt16.ofInt, UInt16.toNat_ofNat']
  omega

theorem signed16_lt (x : UInt16) : signed16 x < 2 ^ 15 := by
  unfold signed16
  have := x.toNat_lt
  split_ifs <;> omega

theorem le_signed16 (x : UInt16) : -2 ^ 15 ≤ signed16 x := by
  unfold signed16
  split_ifs <;> omega

/-- The signed view keeps the residue modulo `2 ^ 16`. -/
theorem signed16_emod (x : UInt16) : signed16 x % 2 ^ 16 = x.toNat := by
  unfold signed16
  have := x.toNat_lt
  split_ifs <;> omega

@[simp] theorem signed16_zero : signed16 0 = 0 := rfl

/-- `(s16)b - a`, computed as an `int` and stored in an `s16`, is the signed difference. -/
theorem toS16_signed16_sub (b a : UInt16) : toS16 (signed16 b - a.toNat) = signed16 (b - a) := by
  unfold toS16
  congr 1
  apply UInt16.toNat_inj.1
  have h := toNat_ofInt (signed16 b - a.toNat)
  have hb := signed16_emod b
  rw [UInt16.toNat_sub]
  have := a.toNat_lt
  omega

/-- `a += d` with `d` the signed difference from `a` to `b` leaves `b`. -/
theorem ofInt_add_signed16_sub (a b : UInt16) : UInt16.ofInt (a.toNat + signed16 (b - a)) = b := by
  apply UInt16.toNat_inj.1
  have h := toNat_ofInt (a.toNat + signed16 (b - a))
  have hd := signed16_emod (b - a)
  rw [UInt16.toNat_sub] at hd
  have := a.toNat_lt
  have := b.toNat_lt
  omega

/-- Advancing `a` by `d`, for `0 ≤ d < 2 ^ 15`, puts the result `d` ahead of `a`. -/
theorem signed16_ofInt_add_sub {a : UInt16} {d : ℤ} (h₀ : 0 ≤ d) (h₁ : d < 2 ^ 15) :
    signed16 (UInt16.ofInt (a.toNat + d) - a) = d := by
  have h := toNat_ofInt (a.toNat + d)
  unfold signed16
  rw [UInt16.toNat_sub]
  have := a.toNat_lt
  split_ifs <;> omega

/-- The signed view is the one representative of the residue in `[-2 ^ 15, 2 ^ 15)`. -/
theorem signed16_eq_of_emod {x : UInt16} {z : ℤ} (h : z % 2 ^ 16 = x.toNat)
    (h₀ : -2 ^ 15 ≤ z) (h₁ : z < 2 ^ 15) : signed16 x = z := by
  have hx := signed16_emod x
  have := le_signed16 x
  have := signed16_lt x
  omega

/-- Two counters in one window from `b`: their signed difference is the difference of their
leads over `b`. -/
theorem signed16_sub_of_window {x y b : UInt16} (hx : 0 ≤ signed16 (x - b))
    (hy : 0 ≤ signed16 (y - b)) : signed16 (x - y) = signed16 (x - b) - signed16 (y - b) := by
  have hxb := signed16_lt (x - b)
  have hyb := signed16_lt (y - b)
  apply signed16_eq_of_emod _ (by omega) (by omega)
  have h₁ := signed16_emod (x - b)
  have h₂ := signed16_emod (y - b)
  rw [UInt16.toNat_sub] at h₁ h₂ ⊢
  have := x.toNat_lt
  have := y.toNat_lt
  have := b.toNat_lt
  omega

/-- Moving `c` forward by `a`, no more than the lead of `t` over `c`, shortens that lead by
`a`. -/
theorem signed16_sub_ofInt_add {t c : UInt16} {a : ℤ} (h₀ : 0 ≤ a) (h : a ≤ signed16 (t - c)) :
    signed16 (t - UInt16.ofInt (c.toNat + a)) = signed16 (t - c) - a := by
  have htc := signed16_lt (t - c)
  apply signed16_eq_of_emod _ (by omega) (by omega)
  have h₁ := signed16_emod (t - c)
  have h₂ := toNat_ofInt (c.toNat + a)
  rw [UInt16.toNat_sub] at h₁ ⊢
  have := t.toNat_lt
  have := c.toNat_lt
  have := (UInt16.ofInt (c.toNat + a)).toNat_lt
  omega

end Serial

end OtelEbpf
