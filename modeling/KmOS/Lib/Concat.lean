/-
# `KmOS.Lib.Concat` — blocks of one size, one after another

Position `p` of the concatenation is position `p % size` of block `p / size`
(`joinBlocks_eq`), and a slice of it is found there position by position
(`slice_joinBlocks`).
-/
import Mathlib.Data.List.Basic
import Mathlib.Tactic.Common

namespace KmOS

section
variable {α : Type} {size : Nat} {block : Nat → Nat → α}

/-- The first `n` blocks, one after another. -/
def joinBlocks (size : Nat) (block : Nat → Nat → α) (n : Nat) : List α :=
  (List.range n).flatMap fun k => (List.range size).map (block k)

theorem joinBlocks_succ (n : Nat) :
    joinBlocks size block (n + 1) = joinBlocks size block n ++ (List.range size).map (block n) := by
  unfold joinBlocks
  rw [List.range_succ, List.flatMap_append, List.flatMap_singleton]

/-- **Where a position lies.** -/
theorem joinBlocks_eq (n : Nat) :
    joinBlocks size block n =
      (List.range (n * size)).map fun p => block (p / size) (p % size) := by
  induction n with
  | zero =>
      rw [Nat.zero_mul]
      rfl
  | succ n ih =>
      rw [joinBlocks_succ, ih, Nat.succ_mul, List.range_add, List.map_append, List.map_map]
      refine congrArg _ (List.map_congr_left fun i hi => ?_)
      have hlt : i < size := List.mem_range.mp hi
      have hpos : 0 < size := Nat.lt_of_le_of_lt (Nat.zero_le i) hlt
      show block n i = block ((n * size + i) / size) ((n * size + i) % size)
      rw [Nat.mul_comm n size, Nat.mul_add_div hpos, Nat.div_eq_of_lt hlt, Nat.mul_add_mod,
        Nat.mod_eq_of_lt hlt, Nat.add_zero]

/-- **A slice**, position by position. -/
theorem slice_joinBlocks {n start count : Nat} (h : start + count ≤ n * size) :
    ((joinBlocks size block n).drop start).take count =
      (List.range count).map fun i => block ((start + i) / size) ((start + i) % size) := by
  obtain ⟨rest, hrest⟩ : ∃ rest, n * size = start + (count + rest) :=
    ⟨n * size - start - count, by omega⟩
  have hdrop : (List.range (n * size)).drop start = (List.range (count + rest)).map (start + ·) := by
    rw [hrest, List.range_add]
    exact List.drop_left' List.length_range
  rw [joinBlocks_eq, ← List.map_drop, ← List.map_take, hdrop, ← List.map_take, List.take_range,
    Nat.min_eq_left (Nat.le_add_right count rest), List.map_map]
  rfl

end

end KmOS
