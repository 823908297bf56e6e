/-
# `KmOS.Lib.LoggedArray` — lists that stand in arrays, and arrays that log their writes

`ListAt b i s` says that the elements of `s` stand in `b` from `i` on.  A
`LoggedArray` is unbounded and keeps the indices of all writes: whoever has a
bound states it of the log (`Only`).  `storeAll` writes a list, and what is
known of an array afterwards follows from `storeAll_listAt` for the range written
and from `storeAll_outside` for the rest.
-/
import Mathlib.Logic.Function.Basic
import Mathlib.Tactic.Common

namespace KmOS

variable {α : Type}

/-! ## Lists in arrays -/

/-- `b[i]`, `b[i + 1]`, … are the elements of the list. -/
def ListAt (b : Nat → α) : Nat → List α → Prop
  | _, [] => True
  | i, c :: s => b i = c ∧ ListAt b (i + 1) s

namespace ListAt

variable {b b' : Nat → α} {i : Nat} {s t : List α}

instance decidable [DecidableEq α] : ∀ (b : Nat → α) (i : Nat) (s : List α), Decidable (ListAt b i s)
  | _, _, [] => .isTrue trivial
  | b, i, _ :: s => @instDecidableAnd _ _ _ (decidable b (i + 1) s)

theorem append_iff : ListAt b i (s ++ t) ↔ ListAt b i s ∧ ListAt b (i + s.length) t := by
  induction s generalizing i with
  | nil => exact ⟨fun h => ⟨trivial, h⟩, fun h => h.2⟩
  | cons c s ih =>
      have hnext : i + (c :: s).length = i + 1 + s.length := by
        rw [List.length_cons]
        omega
      rw [List.cons_append, ListAt, ih, ListAt, and_assoc, hnext]

theorem congr (h : ListAt b i s) (hag : ∀ j, i ≤ j → j < i + s.length → b' j = b j) :
    ListAt b' i s := by
  induction s generalizing i with
  | nil => trivial
  | cons c s ih =>
      rw [List.length_cons] at hag
      refine ⟨?_, ih h.2 fun j hlo hhi => hag j (by omega) (by omega)⟩
      rw [hag i (Nat.le_refl i) (by omega), h.1]

theorem iff_getElem? : ListAt b i s ↔ ∀ j < s.length, s[j]? = some (b (i + j)) := by
  induction s generalizing i with
  | nil => exact iff_of_true trivial nofun
  | cons c s ih =>
      rw [ListAt, ih]
      constructor
      · rintro ⟨hc, hs⟩ j hj
        cases j with
        | zero => exact congrArg some hc.symm
        | succ j =>
            rw [List.getElem?_cons_succ, hs j (Nat.lt_of_succ_lt_succ hj), Nat.add_right_comm]
            rfl
      · intro h
        refine ⟨(Option.some.inj (h 0 (Nat.succ_pos _))).symm, fun j hj => ?_⟩
        have hj' := h (j + 1) (Nat.succ_lt_succ hj)
        rwa [List.getElem?_cons_succ, Nat.add_comm j 1, ← Nat.add_assoc] at hj'

/-- The array from its `n`-th cell on. -/
theorem shift_iff {n : Nat} : ListAt (fun k => b (k + n)) i s ↔ ListAt b (i + n) s := by
  induction s generalizing i with
  | nil => exact Iff.rfl
  | cons c s ih => rw [ListAt, ListAt, ih, Nat.add_right_comm]

/-- Two lists of one length at one place are one. -/
theorem unique (hs : ListAt b i s) (ht : ListAt b i t) (hlen : s.length = t.length) : s = t := by
  induction s generalizing i t with
  | nil => exact (List.length_eq_zero_iff.mp hlen.symm).symm
  | cons c s ih =>
      cases t with
      | nil => exact nomatch hlen
      | cons d t =>
          rw [← hs.1, ← ht.1, ih hs.2 ht.2 (Nat.succ.inj hlen)]

/-- Reading them off. -/
theorem map_range (h : ListAt b 0 s) : (List.range s.length).map b = s := by
  have hb : ListAt b 0 ((List.range s.length).map b) := by
    refine iff_getElem?.mpr fun j hj => ?_
    rw [List.length_map, List.length_range] at hj
    rw [List.getElem?_map, List.getElem?_range hj, Nat.zero_add]
    rfl
  exact hb.unique h (by rw [List.length_map, List.length_range])

end ListAt

/-! ## Arrays with a log -/

/-- An array, with the indices written, the last one first. -/
structure LoggedArray (α : Type) where
  val : Nat → α
  written : List Nat

namespace LoggedArray

variable {m : LoggedArray α} {P Q : Nat → Prop} {i j : Nat} {v : α} {s : List α}

/-- `m[i] = v;` -/
def set (m : LoggedArray α) (i : Nat) (v : α) : LoggedArray α :=
  { val := Function.update m.val i v, written := i :: m.written }

/-- All writes were to indices in `P`. -/
def Only (m : LoggedArray α) (P : Nat → Prop) : Prop := ∀ i ∈ m.written, P i

instance [DecidablePred P] : Decidable (m.Only P) := by
  unfold Only
  infer_instance

theorem only_set : (m.set i v).Only P ↔ P i ∧ m.Only P := List.forall_mem_cons

theorem Only.mono (h : m.Only P) (hPQ : ∀ i, P i → Q i) : m.Only Q := fun i hi => hPQ i (h i hi)

@[simp] theorem set_val_self : (m.set i v).val i = v := Function.update_self ..

theorem set_val_of_ne (h : j ≠ i) : (m.set i v).val j = m.val j := Function.update_of_ne h ..

/-- The elements of a list, one after the other. -/
def storeAll (m : LoggedArray α) (i : Nat) : List α → LoggedArray α
  | [] => m
  | c :: s => (m.set i c).storeAll (i + 1) s

theorem storeAll_outside (h : j < i ∨ i + s.length ≤ j) : (m.storeAll i s).val j = m.val j := by
  induction s generalizing i m with
  | nil => rfl
  | cons c s ih =>
      rw [List.length_cons] at h
      rw [storeAll, ih (by omega), set_val_of_ne (by omega)]

theorem storeAll_listAt : ListAt (m.storeAll i s).val i s := by
  induction s generalizing i m with
  | nil => trivial
  | cons c s ih =>
      refine ⟨?_, ih⟩
      rw [storeAll, storeAll_outside (.inl (Nat.lt_succ_self i)), set_val_self]

theorem only_storeAll :
    (m.storeAll i s).Only P ↔ m.Only P ∧ ∀ j, i ≤ j → j < i + s.length → P j := by
  induction s generalizing i m with
  | nil => exact ⟨fun h => ⟨h, fun j hlo hhi => absurd hhi (Nat.not_lt.mpr hlo)⟩, fun h => h.1⟩
  | cons c s ih =>
      rw [storeAll, ih, only_set, List.length_cons]
      constructor
      · rintro ⟨⟨hi, hm⟩, hrest⟩
        refine ⟨hm, fun j hlo hhi => ?_⟩
        rcases Nat.eq_or_lt_of_le hlo with rfl | hlt
        · exact hi
        · exact hrest j hlt (by omega)
      · rintro ⟨hm, hall⟩
        exact ⟨⟨hall i (Nat.le_refl i) (by omega), hm⟩,
          fun j hlo hhi => hall j (Nat.le_of_succ_le hlo) (by omega)⟩

end LoggedArray

end KmOS
