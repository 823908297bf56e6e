/-
# `KmOS.Lib.InPlace` — loops that move the elements of an array within it

`reverseBetween lo hi` swaps from both ends until the indices meet.  `padLoop`
moves a list up by `d` places and fills the places before it; it starts at the
upper end, so that an element has been read before it is written over.  What
stands where afterwards is said index by index, and for a list that stands in the
array by `reverseBetween_listAt` and `padLoop_listAt`.
-/
import KmOS.Lib.LoggedArray

namespace KmOS

variable {α : Type}

namespace LoggedArray

variable {m : LoggedArray α} {P : Nat → Prop} {lo hi i j d k : Nat} {fill : α} {s : List α}

/-! ## Reversal -/

/-- `tmp = m[j]; m[j] = m[i]; m[i] = tmp;` -/
def swap (m : LoggedArray α) (j i : Nat) : LoggedArray α := (m.set j (m.val i)).set i (m.val j)

/-- `for (j = lo, i = hi; j < i; j++, i--)` swap. -/
def reverseBetween (m : LoggedArray α) (lo hi : Nat) : LoggedArray α :=
  if lo < hi then (m.swap lo hi).reverseBetween (lo + 1) (hi - 1) else m
termination_by hi - lo

theorem reverseBetween_of_lt (h : lo < hi) :
    m.reverseBetween lo hi = (m.swap lo hi).reverseBetween (lo + 1) (hi - 1) := by
  rw [reverseBetween, if_pos h]

theorem reverseBetween_of_le (h : hi ≤ lo) : m.reverseBetween lo hi = m := by
  rw [reverseBetween, if_neg (Nat.not_lt.mpr h)]

theorem swap_val :
    (m.swap j i).val k = if k = i then m.val j else if k = j then m.val i else m.val k := by
  unfold swap
  by_cases hi : k = i
  · rw [if_pos hi, hi, set_val_self]
  · rw [if_neg hi, set_val_of_ne hi]
    by_cases hj : k = j
    · rw [if_pos hj, hj, set_val_self]
    · rw [if_neg hj, set_val_of_ne hj]

/-- Between `lo` and `hi` an index reads its mirror image. -/
theorem reverseBetween_val (k : Nat) :
    (m.reverseBetween lo hi).val k = if lo ≤ k ∧ k ≤ hi then m.val (lo + hi - k) else m.val k := by
  induction m, lo, hi using reverseBetween.induct with
  | case1 m lo hi h ih =>
      rw [reverseBetween_of_lt h, ih, swap_val, swap_val]
      by_cases hlo : k = lo
      · subst hlo
        rw [if_neg (by omega), if_neg (by omega), if_pos rfl, if_pos (by omega),
          Nat.add_sub_cancel_left]
      by_cases hhi : k = hi
      · subst hhi
        rw [if_neg (by omega), if_pos rfl, if_pos (by omega), Nat.add_sub_cancel]
      by_cases hin : lo ≤ k ∧ k ≤ hi
      · have hmirror : lo + 1 + (hi - 1) - k = lo + hi - k := by omega
        rw [if_pos (by omega), if_pos hin, hmirror, if_neg (by omega), if_neg (by omega)]
      · rw [if_neg (by omega), if_neg hin, if_neg hhi, if_neg hlo]
  | case2 m lo hi h =>
      rw [reverseBetween_of_le (Nat.le_of_not_lt h)]
      by_cases hin : lo ≤ k ∧ k ≤ hi
      · have hmirror : lo + hi - k = k := by omega
        rw [if_pos hin, hmirror]
      · rw [if_neg hin]

theorem only_reverseBetween (hm : m.Only P) (h : ∀ k, lo ≤ k → k ≤ hi → P k) :
    (m.reverseBetween lo hi).Only P := by
  induction m, lo, hi using reverseBetween.induct with
  | case1 m lo hi hlt ih =>
      rw [reverseBetween_of_lt hlt]
      refine ih ?_ fun k hlo hhi => h k (by omega) (by omega)
      exact only_set.mpr ⟨h hi (by omega) (by omega), only_set.mpr ⟨h lo (by omega) (by omega), hm⟩⟩
  | case2 m lo hi hle =>
      rw [reverseBetween_of_le (Nat.le_of_not_lt hle)]
      exact hm

/-- **A list is reversed.** -/
theorem reverseBetween_listAt (h : ListAt m.val 0 s) :
    ListAt (m.reverseBetween 0 (s.length - 1)).val 0 s.reverse := by
  rw [ListAt.iff_getElem?] at h ⊢
  intro k hk
  rw [List.length_reverse] at hk
  rw [List.getElem?_reverse hk, h _ (by omega), reverseBetween_val, if_pos (by omega)]
  congr 2
  omega

/-- Nothing else moves. -/
theorem reverseBetween_outside (hk : hi < k) : (m.reverseBetween lo hi).val k = m.val k := by
  rw [reverseBetween_val, if_neg (by omega)]

/-! ## Padding -/

/-- `for (i = n - 1; i >= 0; i--, j--) m[i] = (j >= 0) ? m[j] : fill;` -/
def padLoop (fill : α) : Nat → Int → LoggedArray α → LoggedArray α
  | 0, _, m => m
  | i + 1, j, m => padLoop fill i (j - 1) (m.set i (if 0 ≤ j then m.val j.toNat else fill))

/-- From an index `d` below its own on, every place reads the one `d` below. -/
theorem padLoop_val {n : Nat} (hd : 0 < d) (k : Nat) :
    (padLoop fill n ((n : Int) - 1 - d) m).val k =
      if k < n then (if d ≤ k then m.val (k - d) else fill) else m.val k := by
  induction n generalizing m with
  | zero => rfl
  | succ n ih =>
      have hnext : ((n + 1 : Nat) : Int) - 1 - d - 1 = (n : Int) - 1 - d := by omega
      rw [padLoop, hnext, ih]
      by_cases hkn : k < n
      · rw [if_pos hkn, if_pos (Nat.lt_succ_of_lt hkn), set_val_of_ne (by omega)]
      · rw [if_neg hkn]
        by_cases hk : k = n
        · subst hk
          rw [if_pos (Nat.lt_succ_self k), set_val_self]
          by_cases hdk : d ≤ k
          · rw [if_pos hdk, if_pos (by omega)]
            congr 1
            omega
          · rw [if_neg hdk, if_neg (by omega)]
        · rw [set_val_of_ne hk, if_neg (by omega)]

theorem only_padLoop {n : Nat} {j : Int} (hm : m.Only P) (h : ∀ k < n, P k) :
    (padLoop fill n j m).Only P := by
  induction n generalizing m j with
  | zero => exact hm
  | succ n ih =>
      exact ih (only_set.mpr ⟨h n (Nat.lt_succ_self n), hm⟩) fun k hk => h k (Nat.lt_succ_of_lt hk)

/-- **A list is moved up** behind `d` fillers. -/
theorem padLoop_listAt (fill : α) (hd : 0 < d) (h : ListAt m.val 0 s) :
    ListAt (padLoop fill (d + s.length) ((s.length : Int) - 1) m).val 0
      (List.replicate d fill ++ s) := by
  have hstart : (s.length : Int) - 1 = ((d + s.length : Nat) : Int) - 1 - d := by omega
  rw [ListAt.iff_getElem?] at h ⊢
  intro k hk
  rw [List.length_append, List.length_replicate] at hk
  rw [Nat.zero_add, hstart, padLoop_val hd, if_pos hk, List.getElem?_append, List.length_replicate]
  by_cases hdk : d ≤ k
  · rw [if_pos hdk, if_neg (Nat.not_lt.mpr hdk), h _ (by omega), Nat.zero_add]
  · rw [if_neg hdk, if_pos (Nat.lt_of_not_le hdk), List.getElem?_replicate,
      if_pos (Nat.lt_of_not_le hdk)]

end LoggedArray

end KmOS
