/-
# `KmOS.Runtime.Division` — the 64-bit division helpers

A 32-bit target has no 64-bit division instruction, and the compiler calls
`__udivdi3` and `__umoddi3` for it.  Both read the dividend from bit 63 down: `r`
is shifted left by one, takes the bit, and `d` is subtracted from it when it fits.

The loop variables after `k` turns are `udivAfter n d k` and `umodAfter n d k`.
The bits read so far are `leading 64 n k`, and the invariant is that `r` is the
remainder of that number and `q`, but for the zeros still to come, its quotient.
`r` is then below `2 ^ k` whatever `d` is, and so `r << 1` fits in 64 bits.
-/
import KmOS.Lib.Division
import Mathlib.Tactic.Ring

namespace KmOS

/-- `r = r << 1; r |= (n >> i) & 1;` -/
def takeBit (n : UInt64) (i : Nat) (r : UInt64) : UInt64 :=
  r <<< 1 ||| ((n >>> UInt64.ofNat i) &&& 1)

/-- The variables of `__udivdi3`. -/
structure Udiv where
  q : UInt64
  r : UInt64

/-- The body of the loop in `__udivdi3`. -/
def udivTurn (n d : UInt64) (i : Nat) (s : Udiv) : Udiv :=
  let r := takeBit n i s.r
  if r ≥ d then { q := s.q ||| (1 <<< UInt64.ofNat i), r := r - d } else { q := s.q, r := r }

/-- After `k` turns of `for (int i = 63; i >= 0; i--)`. -/
def udivAfter (n d : UInt64) : Nat → Udiv
  | 0 => { q := 0, r := 0 }
  | k + 1 => udivTurn n d (63 - k) (udivAfter n d k)

def udivdi3 (n d : UInt64) : UInt64 := if d = 0 then 0 else (udivAfter n d 64).q

/-- The body of the loop in `__umoddi3`. -/
def umodTurn (n d : UInt64) (i : Nat) (r : UInt64) : UInt64 :=
  let r := takeBit n i r
  if r ≥ d then r - d else r

/-- `r` after `k` turns. -/
def umodAfter (n d : UInt64) : Nat → UInt64
  | 0 => 0
  | k + 1 => umodTurn n d (63 - k) (umodAfter n d k)

def umoddi3 (n d : UInt64) : UInt64 := if d = 0 then 0 else umodAfter n d 64

variable {n d r : UInt64} {k i : Nat}

/-- The two loops differ in `q` only. -/
theorem udivAfter_r : (udivAfter n d k).r = umodAfter n d k := by
  induction k with
  | zero => rfl
  | succ k ih =>
      rw [udivAfter, umodAfter, udivTurn, umodTurn, ih]
      split <;> rfl

theorem toNat_shift_one (hr : 2 * r.toNat < 2 ^ 64) : (r <<< 1).toNat = 2 * r.toNat := by
  rw [UInt64.toNat_shiftLeft, show (1 : UInt64).toNat % 64 = 1 from rfl, Nat.shiftLeft_eq,
    Nat.pow_one, Nat.mul_comm, Nat.mod_eq_of_lt hr]

theorem toNat_ofNat_bit (hi : i < 64) : (UInt64.ofNat i).toNat % 64 = i := by
  rw [UInt64.toNat_ofNat_of_lt' (Nat.lt_trans hi (by decide)), Nat.mod_eq_of_lt hi]

theorem toNat_bit (hk : k < 64) :
    ((n >>> UInt64.ofNat (63 - k)) &&& 1).toNat = nextDigit 64 n.toNat k := by
  rw [UInt64.toNat_and, UInt64.toNat_shiftRight, toNat_ofNat_bit (by omega),
    show (1 : UInt64).toNat = 1 from rfl, Nat.and_one_is_mod, Nat.shiftRight_eq_div_pow, nextDigit,
    show 64 - (k + 1) = 63 - k by omega]

theorem takeBit_toNat (hk : k < 64) (hr : 2 * r.toNat < 2 ^ 64) :
    (takeBit n (63 - k) r).toNat = 2 * r.toNat + nextDigit 64 n.toNat k := by
  rw [takeBit, UInt64.toNat_or, toNat_shift_one hr, toNat_bit hk]
  exact (Nat.two_pow_add_eq_or_of_lt (i := 1) nextDigit_lt r.toNat).symm

/-- Fewer than `k` binary digits have been read, so the remainder has no more. -/
theorem rem_lt (hk : k ≤ 64) : leading 64 n.toNat k % d.toNat < 2 ^ k :=
  Nat.lt_of_le_of_lt (Nat.mod_le _ _) (leading_lt n.toNat_lt hk)

theorem two_mul_rem_lt (hk : k < 64) : 2 * (leading 64 n.toNat k % d.toNat) < 2 ^ 64 := by
  have hrem := rem_lt (n := n) (d := d) (Nat.le_of_lt hk)
  have hpow : 2 ^ (k + 1) ≤ 2 ^ 64 := Nat.pow_le_pow_right Nat.two_pos hk
  rw [Nat.pow_succ] at hpow
  omega

/-- One turn on a remainder: one binary digit of the long division. -/
theorem umodTurn_toNat (hd : 0 < d) (hk : k < 64)
    (hr : r.toNat = leading 64 n.toNat k % d.toNat) :
    (umodTurn n d (63 - k) r).toNat = leading 64 n.toNat (k + 1) % d.toNat := by
  have hfit : 2 * r.toNat < 2 ^ 64 := hr ▸ two_mul_rem_lt hk
  have htake := takeBit_toNat (n := n) hk hfit
  rw [leading_succ hk, (div_mod_digit nextDigit_lt (UInt64.lt_iff_toNat_lt.mp hd)).2, ← hr, ← htake]
  unfold umodTurn
  by_cases hge : d ≤ takeBit n (63 - k) r
  · rw [if_pos hge, if_pos (UInt64.le_iff_toNat_le.mp hge), UInt64.toNat_sub_of_le _ _ hge]
  · rw [if_neg hge, if_neg (mt UInt64.le_iff_toNat_le.mpr hge)]

theorem umodAfter_toNat (hd : 0 < d) (hk : k ≤ 64) :
    (umodAfter n d k).toNat = leading 64 n.toNat k % d.toNat := by
  induction k with
  | zero =>
      rw [leading_zero n.toNat_lt, Nat.zero_mod]
      rfl
  | succ k ih => exact umodTurn_toNat hd hk (ih (Nat.le_of_succ_le hk))

/-- `q |= (u64)1 << i` sets a bit below all that are set. -/
theorem or_bit_toNat {q : UInt64} {a : Nat} (hk : k < 64) (hq : q.toNat = a * 2 ^ (64 - k)) :
    (q ||| (1 <<< UInt64.ofNat (63 - k))).toNat = (2 * a + 1) * 2 ^ (63 - k) := by
  have hexp : 64 - k = (63 - k) + 1 := by omega
  have hsmall : 2 ^ (63 - k) < 2 ^ 64 := Nat.pow_lt_pow_right Nat.one_lt_two (by omega)
  have hbelow : 2 ^ (63 - k) < 2 ^ (64 - k) := Nat.pow_lt_pow_right Nat.one_lt_two (by omega)
  rw [UInt64.toNat_or, UInt64.toNat_shiftLeft, toNat_ofNat_bit (by omega), Nat.shiftLeft_eq,
    show (1 : UInt64).toNat = 1 from rfl, Nat.one_mul, Nat.mod_eq_of_lt hsmall, hq,
    Nat.mul_comm a, ← Nat.two_pow_add_eq_or_of_lt hbelow, hexp, Nat.pow_succ]
  ring

theorem udivAfter_q_toNat (hd : 0 < d) (hk : k ≤ 64) :
    (udivAfter n d k).q.toNat = leading 64 n.toNat k / d.toNat * 2 ^ (64 - k) := by
  induction k with
  | zero =>
      rw [leading_zero n.toNat_lt, Nat.zero_div, Nat.zero_mul]
      rfl
  | succ k ih =>
      have hr : (udivAfter n d k).r.toNat = leading 64 n.toNat k % d.toNat := by
        rw [udivAfter_r, umodAfter_toNat hd (Nat.le_of_succ_le hk)]
      have hfit : 2 * (udivAfter n d k).r.toNat < 2 ^ 64 := hr ▸ two_mul_rem_lt hk
      have htake := takeBit_toNat (n := n) hk hfit
      have hexp : 64 - k = (64 - (k + 1)) + 1 := by omega
      have hq := ih (Nat.le_of_succ_le hk)
      rw [leading_succ hk, (div_mod_digit nextDigit_lt (UInt64.lt_iff_toNat_lt.mp hd)).1, ← hr,
        ← htake, udivAfter, udivTurn]
      by_cases hge : d ≤ takeBit n (63 - k) (udivAfter n d k).r
      · rw [if_pos hge, if_pos (UInt64.le_iff_toNat_le.mp hge), or_bit_toNat hk hq,
          show 64 - (k + 1) = 63 - k by omega]
      · -- the bit stays clear: the same number with one zero fewer to come
        rw [if_neg hge, if_neg (mt UInt64.le_iff_toNat_le.mpr hge), hq, hexp, Nat.pow_succ]
        ring

theorem udivdi3_eq (hd : 0 < d) : udivdi3 n d = n / d := by
  have hne : d ≠ 0 := UInt64.pos_iff_ne_zero.mp hd
  rw [← UInt64.toNat_inj, udivdi3, if_neg hne, udivAfter_q_toNat hd (Nat.le_refl 64), leading_self,
    Nat.sub_self, Nat.pow_zero, Nat.mul_one, UInt64.toNat_div]

theorem umoddi3_eq (hd : 0 < d) : umoddi3 n d = n % d := by
  have hne : d ≠ 0 := UInt64.pos_iff_ne_zero.mp hd
  rw [← UInt64.toNat_inj, umoddi3, if_neg hne, umodAfter_toNat hd (Nat.le_refl 64), leading_self,
    UInt64.toNat_mod]

/-- The shift at the start of every turn. -/
theorem umodAfter_shift (hd : 0 < d) (hk : k < 64) :
    (umodAfter n d k <<< 1).toNat = 2 * (umodAfter n d k).toNat := by
  refine toNat_shift_one ?_
  rw [umodAfter_toNat hd (Nat.le_of_lt hk)]
  exact two_mul_rem_lt hk

/-- Both helpers divide, and no turn of either loop shifts a bit of `r` out. -/
theorem division_helpers_exact (n d : UInt64) (hd : 0 < d) :
    udivdi3 n d = n / d ∧ umoddi3 n d = n % d ∧
      ∀ k < 64, ((udivAfter n d k).r <<< 1).toNat = 2 * (udivAfter n d k).r.toNat ∧
        (umodAfter n d k <<< 1).toNat = 2 * (umodAfter n d k).toNat := by
  refine ⟨udivdi3_eq hd, umoddi3_eq hd, fun k hk => ⟨?_, umodAfter_shift hd hk⟩⟩
  rw [udivAfter_r]
  exact umodAfter_shift hd hk

/-- A divisor with its top bit set. -/
theorem division_helpers_exact_large :
    udivdi3 0xFFFFFFFFFFFFFFFF 0x8000000000000001 = 1 ∧
      umoddi3 0xFFFFFFFFFFFFFFFF 0x8000000000000001 = 0x7FFFFFFFFFFFFFFE := by
  have h := division_helpers_exact 0xFFFFFFFFFFFFFFFF 0x8000000000000001 (by decide)
  exact ⟨h.1, h.2.1⟩

end KmOS
