/-
# `KmOS.Lib.BoundedLog` — the last entries of a list that grows

A `BoundedLog` keeps at most `cap` entries: one more drops the first of a full log.
What it keeps of the entries of a run are the last `cap` of them (`pushAll_items`).
-/
import Mathlib.Data.List.DropRight

namespace KmOS

variable {α : Type} {cap : Nat}

structure BoundedLog (α : Type) (cap : Nat) where
  items : List α
  fits : items.length ≤ cap

namespace BoundedLog

def empty (α : Type) (cap : Nat) : BoundedLog α cap := ⟨[], Nat.zero_le cap⟩

/-- An entry at the end; a full log drops its first. -/
def push (l : BoundedLog α cap) (a : α) : BoundedLog α cap where
  items := (l.items ++ [a]).rtake cap
  fits := by
    rw [List.rtake, List.length_drop]
    omega

variable {l : BoundedLog α cap} {a : α} {s : List α}

theorem rtake_append_of_rtake (s t : List α) (n : Nat) : (s.rtake n ++ t).rtake n = (s ++ t).rtake n := by
  unfold List.rtake
  rw [← List.drop_append_of_le_length (Nat.sub_le _ _), List.drop_drop, List.length_drop]
  congr 1
  rw [List.length_append]
  omega

theorem push_items (l : BoundedLog α cap) (a : α) : (l.push a).items = (l.items ++ [a]).rtake cap := rfl

theorem push_of_lt (h : l.items.length < cap) : (l.push a).items = l.items ++ [a] := by
  rw [push_items, List.rtake, List.length_append, List.length_singleton, Nat.sub_eq_zero_of_le h,
    List.drop_zero]

theorem push_of_full (h : l.items.length = cap) (hcap : 0 < cap) :
    (l.push a).items = l.items.tail ++ [a] := by
  have hne : l.items ≠ [] := List.ne_nil_of_length_pos (by omega)
  rw [push_items, List.rtake, List.length_append, List.length_singleton, h,
    Nat.add_sub_cancel_left, List.drop_one,
    List.tail_append_of_ne_nil hne]

/-- **All entries.** -/
theorem pushAll_items (as : List α) (hs : l.items = s.rtake cap) :
    (as.foldl push l).items = (s ++ as).rtake cap := by
  induction as generalizing l s with
  | nil =>
      rw [List.append_nil]
      exact hs
  | cons a as ih =>
      have hstep : (l.push a).items = (s ++ [a]).rtake cap := by
        rw [push_items, hs, rtake_append_of_rtake]
      rw [List.foldl_cons, ih hstep, List.append_assoc]
      rfl

end BoundedLog

end KmOS
