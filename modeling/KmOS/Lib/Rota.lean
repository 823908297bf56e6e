/-
# `KmOS.Lib.Rota` — taking turns

The first of a list has the turn; when its turn ends it goes to the end of the list.
After `m` turns the list is rotated by `m`, and its `j`-th member has had as many turns
as there are numbers below `m` that are `j` modulo the length (`pass_iterate_turns`).  So
no member is more than one turn ahead of another.
-/
import Mathlib.Data.Int.CardIntervalMod
import Mathlib.Data.List.Rotate

namespace KmOS

variable {α : Type} [DecidableEq α]

/-- Who waits for a turn, and how many turns everybody has ended. -/
structure Rota (α : Type) where
  order : List α
  turns : α → Nat

namespace Rota

/-- The turn of the first ends. -/
def pass (r : Rota α) : Rota α where
  order := r.order.rotate 1
  turns := fun x => if r.order.head? = some x then r.turns x + 1 else r.turns x

variable {r : Rota α} {m : Nat} {x : α}

theorem pass_cons {y : α} {l : List α} (h : r.order = y :: l) : r.pass.order = l ++ [y] := by
  unfold pass
  rw [h, List.rotate_cons_succ, List.rotate_zero]

theorem pass_iterate_order (r : Rota α) (m : Nat) : (pass^[m] r).order = r.order.rotate m := by
  induction m with
  | zero => exact r.order.rotate_zero.symm
  | succ m ih =>
      rw [Function.iterate_succ_apply']
      show (pass^[m] r).order.rotate 1 = _
      rw [ih, List.rotate_rotate]

/-- Whose turn it is. -/
theorem head?_pass_iterate (h : r.order ≠ []) (m : Nat) :
    (pass^[m] r).order.head? = r.order[m % r.order.length]? := by
  have hlt : m % r.order.length < r.order.length := Nat.mod_lt m (List.length_pos_iff.mpr h)
  rw [pass_iterate_order, ← List.rotate_mod, List.head?_rotate hlt]

/-- Those who do not wait have no turns. -/
theorem pass_iterate_turns_of_notMem (hx : x ∉ r.order) (m : Nat) :
    (pass^[m] r).turns x = r.turns x := by
  induction m with
  | zero => rfl
  | succ m ih =>
      rw [Function.iterate_succ_apply']
      show (if (pass^[m] r).order.head? = some x then _ else _) = _
      rw [if_neg fun h => hx ?_, ih]
      have hmem := List.mem_of_mem_head? h
      rw [pass_iterate_order] at hmem
      exact (List.rotate_perm r.order m).mem_iff.mp hmem

/-- **The turns** of the `j`-th member. -/
theorem pass_iterate_turns (hnd : r.order.Nodup) {j : Nat} (hj : j < r.order.length) (m : Nat) :
    (pass^[m] r).turns r.order[j] =
      r.turns r.order[j] + m.count (· ≡ j [MOD r.order.length]) := by
  have hne : r.order ≠ [] := List.ne_nil_of_length_pos (Nat.zero_lt_of_lt hj)
  induction m with
  | zero => rfl
  | succ m ih =>
      have hhead : (pass^[m] r).order.head? = some r.order[j] ↔ m ≡ j [MOD r.order.length] := by
        have hlt : m % r.order.length < r.order.length := Nat.mod_lt m (Nat.zero_lt_of_lt hj)
        rw [head?_pass_iterate hne, List.getElem?_eq_getElem hlt, Option.some_inj,
          hnd.getElem_inj_iff, Nat.ModEq, Nat.mod_eq_of_lt hj]
      rw [Function.iterate_succ_apply', Nat.count_succ]
      show (if (pass^[m] r).order.head? = some r.order[j] then _ else _) = _
      by_cases hm : m ≡ j [MOD r.order.length]
      · rw [if_pos (hhead.mpr hm), if_pos hm, ih, Nat.add_assoc]
      · rw [if_neg (mt hhead.mp hm), if_neg hm, ih, Nat.add_zero]

/-- Everybody has had as many turns as the others, or one more. -/
theorem count_mod_bounds {n : Nat} (hn : 0 < n) (j m : Nat) :
    m / n ≤ m.count (· ≡ j [MOD n]) ∧ m.count (· ≡ j [MOD n]) ≤ m / n + 1 := by
  rw [Nat.count_modEq_card m hn]
  constructor
  · exact Nat.le_add_right ..
  · refine Nat.add_le_add_left ?_ _
    split
    · exact Nat.le_refl 1
    · exact Nat.zero_le 1

end Rota

end KmOS
