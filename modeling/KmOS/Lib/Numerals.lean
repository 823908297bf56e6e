/-
# `KmOS.Lib.Numerals` — numerals as strings

`numeral b s` is the number that the string `s` writes in base `b`, the first
character being the leading digit: `0` to `9`, then `a` to `z`.  There is none if
a character is no digit of that base.

A list of digits with the least one first, as `Nat.digits` gives it, is written
back to front (`numeral_reverse_map`), and zeros in front do not count
(`numeral_zeros`).
-/
import Mathlib.Data.Nat.Digits.Defs

namespace KmOS

/-- `'0'`. -/
def zeroChar : UInt8 := 0x30

/-- The digit that a character writes. -/
def digitValue (b : Nat) (c : UInt8) : Option Nat :=
  let d := if c.toNat < 0x3A then c.toNat - 0x30 else c.toNat - 0x61 + 10
  if (0x30 ≤ c.toNat ∧ c.toNat < 0x3A ∨ 0x61 ≤ c.toNat ∧ c.toNat < 0x7B) ∧ d < b then some d
  else none

/-- The number written so far, and one more digit. -/
def nextNumeral (b : Nat) (acc : Option Nat) (c : UInt8) : Option Nat :=
  acc.bind fun a => (digitValue b c).map (a * b + ·)

def numeral (b : Nat) (s : List UInt8) : Option Nat := s.foldl (nextNumeral b) (some 0)

variable {b n k : Nat} {s : List UInt8} {c : UInt8}

theorem numeral_concat : numeral b (s ++ [c]) = nextNumeral b (numeral b s) c := by
  unfold numeral
  rw [List.foldl_append]
  rfl

theorem digitValue_zeroChar (hb : 0 < b) : digitValue b zeroChar = some 0 := if_pos ⟨by decide, hb⟩

theorem digitValue_nul : digitValue b 0 = none := by
  unfold digitValue
  exact if_neg fun h => absurd h.1 (by decide)

theorem nextNumeral_nul (acc : Option Nat) : nextNumeral b acc 0 = none := by
  unfold nextNumeral
  rw [digitValue_nul]
  cases acc with
  | none => rfl
  | some a => rfl

theorem foldl_none : s.foldl (nextNumeral b) none = none := by
  induction s with
  | nil => rfl
  | cons c s ih => exact ih

/-- A numeral is a string. -/
theorem nul_notMem_of_numeral (h : numeral b s = some n) : 0 ∉ s := by
  intro h0
  obtain ⟨u, t, rfl⟩ := List.append_of_mem h0
  rw [numeral, List.foldl_append, List.foldl_cons, nextNumeral_nul, foldl_none] at h
  exact nomatch h

/-- Zeros in front. -/
theorem numeral_zeros (hb : 0 < b) : numeral b (List.replicate k zeroChar ++ s) = numeral b s := by
  have hz : numeral b (List.replicate k zeroChar) = some 0 := by
    induction k with
    | zero => rfl
    | succ k ih =>
        rw [List.replicate_succ', numeral_concat, ih, nextNumeral, Option.bind_some,
          digitValue_zeroChar hb, Option.map_some, Nat.zero_mul]
  rw [numeral, List.foldl_append]
  exact congrArg (s.foldl (nextNumeral b)) hz

/-- **Digits back to front**: what they write is what they are. -/
theorem numeral_reverse_map {f : Nat → UInt8} (hf : ∀ d < b, digitValue b (f d) = some d)
    {ds : List Nat} (hds : ∀ d ∈ ds, d < b) :
    numeral b (ds.map f).reverse = some (Nat.ofDigits b ds) := by
  induction ds with
  | nil => rfl
  | cons d ds ih =>
      obtain ⟨hd, hrest⟩ := List.forall_mem_cons.mp hds
      rw [List.map_cons, List.reverse_cons, numeral_concat, ih hrest, nextNumeral, Option.bind_some,
        hf d hd, Option.map_some, Nat.ofDigits_cons, Nat.mul_comm, Nat.add_comm]

/-! ## The digits a loop gives -/

/-- The digits of `n`, the least one first; 0 has one. -/
def digitList (b n : Nat) : List Nat := n % b :: Nat.digits b (n / b)

theorem digitList_of_pos (hb : 1 < b) (hn : 0 < n) : digitList b n = Nat.digits b n :=
  (Nat.digits_def' hb hn).symm

/-- One digit, and those of the rest unless there is none. -/
theorem digitList_eq (hb : 1 < b) :
    digitList b n = n % b :: (if n / b ≠ 0 then digitList b (n / b) else []) := by
  rw [digitList]
  by_cases hq : n / b = 0
  · rw [if_neg (not_not.mpr hq), hq, Nat.digits_zero]
  · rw [if_pos hq, digitList_of_pos hb (Nat.pos_of_ne_zero hq)]

theorem ofDigits_digitList : Nat.ofDigits b (digitList b n) = n := by
  rw [digitList, Nat.ofDigits_cons, Nat.ofDigits_digits]
  exact Nat.mod_add_div n b

theorem lt_of_mem_digitList (hb : 1 < b) {d : Nat} (hd : d ∈ digitList b n) : d < b := by
  rcases List.mem_cons.mp hd with rfl | hd
  · exact Nat.mod_lt n (Nat.lt_trans Nat.one_pos hb)
  · exact Nat.digits_lt_base hb hd

theorem length_digitList_le (hb : 1 < b) (hk : 0 < k) (hn : n < b ^ k) :
    (digitList b n).length ≤ k := by
  induction k generalizing n with
  | zero => exact absurd hk (Nat.lt_irrefl 0)
  | succ k ih =>
      have hq : n / b < b ^ k := by
        rw [Nat.pow_succ, Nat.mul_comm] at hn
        exact Nat.div_lt_of_lt_mul hn
      rw [digitList_eq hb, List.length_cons]
      refine Nat.succ_le_succ ?_
      split
      · next hne =>
          -- one digit at least is left, so there was room for one
          have hpos : 0 < k := by
            refine Nat.pos_of_ne_zero fun h0 => hne ?_
            rw [h0, Nat.pow_zero] at hq
            exact Nat.lt_one_iff.mp hq
          exact ih hpos hq
      · exact Nat.zero_le k

/-- The leading digit is not 0, unless it is the only one. -/
theorem getLast_digitList (hb : 1 < b) (h0 : (digitList b n).getLast? = some 0) :
    digitList b n = [0] := by
  induction n using Nat.strongRecOn with
  | ind n ih =>
      rw [digitList_eq hb] at h0 ⊢
      split at h0
      · next hne =>
          have hsmaller : n / b < n :=
            Nat.div_lt_self (Nat.pos_of_div_pos (Nat.pos_of_ne_zero hne)) hb
          have hlast : (digitList b (n / b)).getLast? = some 0 := by
            rw [digitList] at h0 ⊢
            rwa [List.getLast?_cons_cons] at h0
          -- all that is left would be 0
          have hzero := ofDigits_digitList (b := b) (n := n / b)
          rw [ih _ hsmaller hlast, Nat.ofDigits_singleton] at hzero
          exact absurd hzero.symm hne
      · next hq =>
          rw [if_neg hq]
          rw [List.getLast?_singleton] at h0
          rw [Option.some.inj h0]

end KmOS
