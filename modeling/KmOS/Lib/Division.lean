/-
# `KmOS.Lib.Division` — division one binary digit at a time

Shift-and-subtract division reads the dividend from the top.  After `k` of its
`w` digits it has divided the number that these digits write, `leading w n k`,
and the next digit changes quotient and remainder as `div_mod_digit` says.
-/
import Mathlib.Algebra.Order.Group.Nat
import Mathlib.Tactic.Common

namespace KmOS

variable {w n k m b d : Nat}

/-- The number that the first `k` of the `w` binary digits of `n` write. -/
def leading (w n k : Nat) : Nat := n / 2 ^ (w - k)

/-- The digit that comes after `k` of them. -/
def nextDigit (w n k : Nat) : Nat := n / 2 ^ (w - (k + 1)) % 2

theorem nextDigit_lt : nextDigit w n k < 2 := Nat.mod_lt _ Nat.two_pos

theorem leading_zero (hn : n < 2 ^ w) : leading w n 0 = 0 := Nat.div_eq_of_lt hn

theorem leading_self : leading w n w = n := by
  rw [leading, Nat.sub_self, Nat.pow_zero, Nat.div_one]

theorem leading_succ (hk : k < w) :
    leading w n (k + 1) = 2 * leading w n k + nextDigit w n k := by
  have hexp : w - k = (w - (k + 1)) + 1 := by omega
  have hhalf : leading w n k = n / 2 ^ (w - (k + 1)) / 2 := by
    rw [leading, hexp, Nat.pow_succ, Nat.div_div_eq_div_mul]
  rw [hhalf, nextDigit, leading]
  exact (Nat.div_add_mod _ 2).symm

theorem leading_lt (hn : n < 2 ^ w) (hk : k ≤ w) : leading w n k < 2 ^ k := by
  refine Nat.div_lt_of_lt_mul ?_
  rwa [← Nat.pow_add, Nat.sub_add_cancel hk]

/-- One more digit, and at most one subtraction. -/
theorem div_mod_digit (hb : b < 2) (hd : 0 < d) :
    (2 * m + b) / d = 2 * (m / d) + (if d ≤ 2 * (m % d) + b then 1 else 0) ∧
      (2 * m + b) % d =
        if d ≤ 2 * (m % d) + b then 2 * (m % d) + b - d else 2 * (m % d) + b := by
  have hm := Nat.div_add_mod m d
  have hr := Nat.mod_lt m hd
  have hdist : d * (2 * (m / d)) = 2 * (d * (m / d)) := Nat.mul_left_comm d 2 (m / d)
  refine (Nat.div_mod_unique hd).mpr ?_
  split
  · rw [Nat.mul_add, Nat.mul_one, hdist]
    omega
  · rw [Nat.add_zero, hdist]
    omega

end KmOS
