/-
# `KmOS.Lib.Keyed` — lists whose entries have different keys

A table is searched by a key, and an entry is taken out by its key.  Where no two
entries have the same key this takes out that entry and nothing else.  A table
put together from keys and entries has no other keys and entries.
-/
import Mathlib.Data.List.Nodup
import Mathlib.Data.List.Perm.Basic

namespace KmOS

variable {α κ : Type} {f : α → κ} {l : List α} {a : α} {b : κ}

/-- Where no value of `f` occurs twice, removing the first element with the
value `b` leaves none with it. -/
theorem mem_eraseP_of_nodup [DecidableEq κ] (hnd : (l.map f).Nodup) (ha : a ∈ l.eraseP fun c => f c = b) :
    a ∈ l ∧ f a ≠ b := by
  refine ⟨List.mem_of_mem_eraseP ha, ?_⟩
  rcases List.exists_or_eq_self_of_eraseP (fun c => f c = b) l with he | ⟨c, l₁, l₂, _, hc, rfl, he⟩
  · have hnone := List.eraseP_eq_self_iff.mp he a (List.mem_of_mem_eraseP ha)
    simpa using hnone
  · obtain rfl : f c = b := by simpa using hc
    rw [he] at ha
    rw [List.map_append, List.map_cons, List.perm_middle.nodup_iff, ← List.map_append] at hnd
    exact fun e => (List.nodup_cons.mp hnd).1 (e ▸ List.mem_map_of_mem ha)

/-- Removing by key is removing the entry. -/
theorem eraseP_key [DecidableEq κ] [BEq α] [LawfulBEq α] (hnd : (l.map f).Nodup) (ha : a ∈ l) :
    l.eraseP (fun c => f c = f a) = l.erase a := by
  induction l with
  | nil => exact nomatch ha
  | cons b l ih =>
      rw [List.map_cons] at hnd
      obtain ⟨hb, hnd⟩ := List.nodup_cons.mp hnd
      rcases List.mem_cons.mp ha with rfl | hm
      · rw [List.eraseP_cons_of_pos (by simp), List.erase_cons_head]
      · have hne : f b ≠ f a := fun e => hb (e ▸ List.mem_map_of_mem hm)
        rw [List.eraseP_cons_of_neg (by simpa using hne),
          List.erase_cons_tail (by simpa using fun e => hne (congrArg f e)), ih hnd hm]

/-! ## Keys and entries put together -/

theorem fst_zip_sublist (l : List α) (k : List κ) : ((l.zip k).map Prod.fst).Sublist l := by
  rw [List.zip_eq_zip_take_min, List.map_fst_zip (by simp)]
  exact List.take_sublist _ l

theorem snd_zip_sublist (l : List α) (k : List κ) : ((l.zip k).map Prod.snd).Sublist k := by
  rw [List.zip_eq_zip_take_min, List.map_snd_zip (by simp)]
  exact List.take_sublist _ k

end KmOS
