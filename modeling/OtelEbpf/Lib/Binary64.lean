import Mathlib.Algebra.Order.Field.Rat

/-!
# Binary64 arithmetic

The values of IEEE 754 binary64 (`double`) as rationals, and its arithmetic as the exact result
rounded to the nearest value, ties to the one with an even significand.  A finite `double` is
`m * 2 ^ e` with `|m| < 2 ^ 53` and `-1074 ≤ e`: a non-zero result of binade `2 ^ b ≤ |x| <
2 ^ (b + 1)` is rounded to a multiple of `2 ^ (b - 52)`, and below the normal range, where that
would be finer than the least subnormal, to a multiple of `2 ^ (-1074)`.

The exponent is not bounded above: a result of magnitude `2 ^ 1024` or more is a rational here
where a `double` overflows to an infinity.  `+0` and `-0` are both `0`.

* `Binary64.round` : the nearest `double`, ties to even.
* `Binary64.add`, `Binary64.mul` and `Binary64.div` : `+`, `*` and `/` on `double`s, one rounding
  each (no fused multiply-add).
-/

namespace OtelEbpf

namespace Binary64

/-- The integer nearest to `q`, the even one of two at the same distance. -/
def roundHalfEven (q : ℚ) : ℤ :=
  -- `Int.ediv` by the positive denominator is the floor
  let n := q.num / q.den
  let r := q - n
  if r < 1 / 2 then n else if 1 / 2 < r then n + 1 else if n % 2 = 0 then n else n + 1

/-- The binade of a non-zero `q`: the `b` with `2 ^ b ≤ |q| < 2 ^ (b + 1)`.  For `|q| = n / d`
with `2 ^ a ≤ n < 2 ^ (a + 1)` and `2 ^ c ≤ d < 2 ^ (c + 1)` it is `a - c` or one less. -/
def binade (q : ℚ) : ℤ :=
  let b : ℤ := (q.num.natAbs.log2 : ℤ) - q.den.log2
  if |q| < 2 ^ b then b - 1 else b

/-- The `double` nearest to `q`, ties to even. -/
def round (q : ℚ) : ℚ :=
  if q = 0 then 0
  else
    let ulp : ℚ := 2 ^ max (binade q - 52) (-1074)
    roundHalfEven (q / ulp) * ulp

example : round (1 / 10) = 3602879701896397 / 2 ^ 55 := by decide +kernel

example : round (2 ^ 53 + 1) = 2 ^ 53 := by decide +kernel

example : round (2 ^ 53 + 3) = 2 ^ 53 + 4 := by decide +kernel

example : round (3 / 2 ^ 1075) = 2 / 2 ^ 1074 := by decide +kernel

/-- `a + b` on `double`s. -/
def add (a b : ℚ) : ℚ := round (a + b)

/-- `a * b` on `double`s. -/
def mul (a b : ℚ) : ℚ := round (a * b)

/-- `a / b` on `double`s. -/
def div (a b : ℚ) : ℚ := round (a / b)

/-- `0.1 + 0.2` is `0.30000000000000004`, one unit in the last place above `0.3`. -/
example : add (round (1 / 10)) (round (2 / 10)) = round (3 / 10) + 1 / 2 ^ 54 := by
  decide +kernel

end Binary64

end OtelEbpf
