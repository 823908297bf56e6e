/-
# `KmOS.Runtime.Itoa` — `itoa`

The digits come out least first and are swapped in place.  `n /= base` is how the
first loop ends, and in base 1 it never does: the loop takes the number of turns it
may make.  A base of 0 faults in the division.

`long` is 32 bits wide, and `base`, an `int`, is converted to `unsigned long` by the
division, so that it is a word here.
-/
import KmOS.Lib.InPlace
import KmOS.Lib.Numerals
import KmOS.Lib.Strings

namespace KmOS

/-- `(tmp < 10) ? (tmp + '0') : (tmp + 'a' - 10)`, as a `char`. -/
def digitChar (tmp : UInt32) : UInt8 :=
  if tmp < 10 then (tmp + 0x30).toUInt8 else (tmp + 0x61 - 10).toUInt8

/-- `do … while (n /= base);`, with `i` where it ends. -/
def digitLoop (base : UInt32) : Nat → UInt32 → Nat → LoggedArray UInt8 →
    Option (LoggedArray UInt8 × Nat)
  | 0, _, _, _ => none
  | fuel + 1, n, i, buf =>
      let tmp := n % base
      let buf := buf.set i (digitChar tmp)
      let n := n / base
      if n ≠ 0 then digitLoop base fuel n (i + 1) buf else some (buf, i + 1)

def itoa (buf : LoggedArray UInt8) (n base : UInt32) (fuel : Nat) : Option (LoggedArray UInt8) :=
  if base = 0 then none
  else
    (digitLoop base fuel n 0 buf).map fun (buf, i) => (buf.set i 0).reverseBetween 0 (i - 1)

/-! ## The digits -/

/-- The digits of `n` as characters, the leading one first. -/
def digitString (base n : Nat) : List UInt8 :=
  ((digitList base n).map fun d => digitChar (UInt32.ofNat d)).reverse

variable {base n : UInt32} {fuel : Nat}

theorem digitValue_digitChar {b d : Nat} (hb : b ≤ 36) (hd : d < b) :
    digitValue b (digitChar (UInt32.ofNat d)) = some d := by
  have hall : ∀ d < 36, ∃ c, digitChar (UInt32.ofNat d) = c ∧
      (0x30 ≤ c.toNat ∧ c.toNat < 0x3A ∨ 0x61 ≤ c.toNat ∧ c.toNat < 0x7B) ∧
      (if c.toNat < 0x3A then c.toNat - 0x30 else c.toNat - 0x61 + 10) = d := by
    simp only [exists_eq_left']
    decide
  obtain ⟨c, rfl, hrange, hval⟩ := hall d (Nat.lt_of_lt_of_le hd hb)
  unfold digitValue
  dsimp only
  rw [hval, if_pos ⟨hrange, hd⟩]

section
variable {b : Nat}

theorem numeral_digitString (n : Nat) (hb : 1 < b) (hb' : b ≤ 36) :
    numeral b (digitString b n) = some n := by
  have hval := numeral_reverse_map (f := fun d => digitChar (UInt32.ofNat d))
    (fun d hd => digitValue_digitChar hb' hd) (fun d hd => lt_of_mem_digitList (n := n) hb hd)
  rwa [ofDigits_digitList] at hval

theorem length_digitString (n : Nat) : (digitString b n).length = (digitList b n).length := by
  rw [digitString, List.length_reverse, List.length_map]

theorem digitString_ne_nil (n : Nat) : digitString b n ≠ [] :=
  List.ne_nil_of_length_pos (by rw [length_digitString]; exact Nat.succ_pos _)

/-- No leading zero. -/
theorem head_digitString {n : Nat} (hb : 1 < b) (hb' : b ≤ 36)
    (h : (digitString b n).head? = some zeroChar) : digitString b n = [zeroChar] := by
  rw [digitString, List.head?_reverse, List.getLast?_map, Option.map_eq_some_iff] at h
  obtain ⟨d, hlast, hd⟩ := h
  have hlt := lt_of_mem_digitList hb (List.mem_of_getLast? hlast)
  -- the character of that digit is read back as the digit
  have hzero : digitValue b zeroChar = some 0 := digitValue_zeroChar (Nat.lt_trans Nat.one_pos hb)
  rw [← hd, digitValue_digitChar hb' hlt] at hzero
  rw [Option.some.inj hzero] at hlast
  rw [digitString, getLast_digitList hb hlast]
  rfl

end

/-! ## What the loops leave -/

theorem toNat_div_ne_zero : n / base ≠ 0 ↔ n.toNat / base.toNat ≠ 0 := by
  rw [← UInt32.toNat_div]
  exact not_congr UInt32.toNat_inj.symm

/-- The loop stores the digits, the least one first. -/
theorem digitLoop_eq (i : Nat) (buf : LoggedArray UInt8) (hb : 1 < base.toNat)
    (hf : (digitList base.toNat n.toNat).length ≤ fuel) :
    digitLoop base fuel n i buf =
      some (buf.storeAll i ((digitList base.toNat n.toNat).map
          fun d => digitChar (UInt32.ofNat d)),
        i + (digitList base.toNat n.toNat).length) := by
  induction fuel generalizing n i buf with
  | zero => exact absurd hf (Nat.not_succ_le_zero _)
  | succ fuel ih =>
      have hdigit : UInt32.ofNat (n.toNat % base.toNat) = n % base := by
        rw [← UInt32.toNat_mod]
        exact UInt32.ofNat_toNat
      rw [digitLoop]
      rw [digitList_eq hb] at hf ⊢
      rw [List.map_cons, hdigit, LoggedArray.storeAll]
      by_cases hq : n.toNat / base.toNat = 0
      · rw [if_neg (mt toNat_div_ne_zero.mp (not_not.mpr hq)), if_neg (not_not.mpr hq)]
        rfl
      · rw [if_pos hq, List.length_cons] at hf
        rw [if_pos (toNat_div_ne_zero.mpr hq), if_pos hq, List.length_cons, ih, UInt32.toNat_div]
        · congr 2
          omega
        · rw [UInt32.toNat_div]
          exact Nat.le_of_succ_le_succ hf

/-- **`itoa`** leaves the string of the digits, and writes no more than that. -/
theorem itoa_spec (buf : LoggedArray UInt8) (n : UInt32) (hb : 1 < base.toNat)
    (hb' : base.toNat ≤ 36) (hf : (digitString base.toNat n.toNat).length ≤ fuel) :
    ∃ r, itoa buf n base fuel = some r ∧ StringAt r.val 0 (digitString base.toNat n.toNat) ∧
      ∀ P, buf.Only P → (∀ k ≤ (digitString base.toNat n.toNat).length, P k) → r.Only P := by
  generalize hds : (digitList base.toNat n.toNat).map (fun d => digitChar (UInt32.ofNat d)) = ds
  have hstring : digitString base.toNat n.toNat = ds.reverse := congrArg List.reverse hds
  have hlen : (digitList base.toNat n.toNat).length = ds.length := by
    rw [← hds, List.length_map]
  have hbase : base ≠ 0 := by
    rintro rfl
    exact absurd hb (by decide)
  have hloop := digitLoop_eq 0 buf hb
    (Nat.le_trans (Nat.le_of_eq (length_digitString n.toNat).symm) hf)
  rw [hds, hlen, Nat.zero_add] at hloop
  have hnul : 0 ∉ ds.reverse := hstring ▸ nul_notMem_of_numeral (numeral_digitString n.toNat hb hb')
  have hlist : ListAt ((buf.storeAll 0 ds).set ds.length 0).val 0 ds := by
    refine LoggedArray.storeAll_listAt.congr fun j _ hj => LoggedArray.set_val_of_ne ?_
    omega
  have hpos : 0 < ds.length := by
    rw [← hlen]
    exact Nat.succ_pos _
  rw [hstring, List.length_reverse]
  refine ⟨((buf.storeAll 0 ds).set ds.length 0).reverseBetween 0 (ds.length - 1), ?_, ?_, ?_⟩
  · rw [itoa, if_neg hbase, hloop]
    rfl
  · refine .mk' hnul (LoggedArray.reverseBetween_listAt hlist) ?_
    rw [List.length_reverse, Nat.zero_add, LoggedArray.reverseBetween_outside (by omega)]
    exact LoggedArray.set_val_self
  · intro P hP hall
    refine LoggedArray.only_reverseBetween ?_ fun k _ hk => hall k (by omega)
    refine LoggedArray.only_set.mpr ⟨hall _ (Nat.le_refl _), ?_⟩
    exact LoggedArray.only_storeAll.mpr ⟨hP, fun j _ hj => hall j (by omega)⟩

/-- No number has more than 32 digits, in whatever base. -/
theorem length_digitString_le (n : UInt32) {b k : Nat} (hb : 1 < b) (hk : 0 < k)
    (hn : 2 ^ 32 ≤ b ^ k) : (digitString b n.toNat).length ≤ k := by
  rw [length_digitString]
  exact length_digitList_le hb hk (Nat.lt_of_lt_of_le n.toNat_lt hn)

end KmOS
