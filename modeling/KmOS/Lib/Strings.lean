/-
# `KmOS.Lib.Strings` — strings that a zero ends

`StringAt b i s` says that a pointer to `b[i]` is the string `s`: its bytes, none
of them 0, and a 0 behind them.  A pointer is at most one string (`unique`), and
a pointer into it is the rest of it (`drop`).
-/
import KmOS.Lib.LoggedArray

namespace KmOS

/-- The string at `b + i`. -/
def StringAt (b : Nat → UInt8) (i : Nat) (s : List UInt8) : Prop :=
  0 ∉ s ∧ ListAt b i (s ++ [0])

instance (b : Nat → UInt8) (i : Nat) (s : List UInt8) : Decidable (StringAt b i s) := by
  unfold StringAt
  infer_instance

namespace StringAt

variable {b b' : Nat → UInt8} {i : Nat} {s t : List UInt8}

theorem listAt (h : StringAt b i s) : ListAt b i s := (ListAt.append_iff.mp h.2).1

theorem zero (h : StringAt b i s) : b (i + s.length) = 0 := (ListAt.append_iff.mp h.2).2.1

theorem mk' (hn : 0 ∉ s) (hs : ListAt b i s) (hz : b (i + s.length) = 0) : StringAt b i s :=
  ⟨hn, ListAt.append_iff.mpr ⟨hs, hz, trivial⟩⟩

theorem nil_iff : StringAt b i [] ↔ b i = 0 :=
  ⟨fun h => h.zero, fun h => ⟨nofun, h, trivial⟩⟩

theorem cons_iff {c : UInt8} : StringAt b i (c :: s) ↔ c ≠ 0 ∧ b i = c ∧ StringAt b (i + 1) s := by
  unfold StringAt
  rw [List.mem_cons, not_or, List.cons_append, ListAt]
  constructor
  · rintro ⟨⟨hc, hs⟩, hi, hrest⟩
    exact ⟨Ne.symm hc, hi, hs, hrest⟩
  · rintro ⟨hc, hi, hs, hrest⟩
    exact ⟨⟨Ne.symm hc, hs⟩, hi, hrest⟩

theorem congr (h : StringAt b i s) (hag : ∀ j, i ≤ j → j ≤ i + s.length → b' j = b j) :
    StringAt b' i s := by
  refine ⟨h.1, h.2.congr fun j hlo hhi => hag j hlo ?_⟩
  rw [List.length_append, List.length_singleton] at hhi
  omega

theorem shift_iff {n : Nat} : StringAt (fun k => b (k + n)) i s ↔ StringAt b (i + n) s :=
  and_congr_right fun _ => ListAt.shift_iff

/-- A string has no zero but the one that ends it. -/
theorem unique (hs : StringAt b i s) (ht : StringAt b i t) : s = t := by
  induction s generalizing i t with
  | nil =>
      cases t with
      | nil => rfl
      | cons d t =>
          have hd := cons_iff.mp ht
          exact absurd (hd.2.1.symm.trans (nil_iff.mp hs)) hd.1
  | cons c s ih =>
      have hc := cons_iff.mp hs
      cases t with
      | nil => exact absurd (hc.2.1.symm.trans (nil_iff.mp ht)) hc.1
      | cons d t =>
          have hd := cons_iff.mp ht
          rw [← hc.2.1, ← hd.2.1, ih hc.2.2 hd.2.2]

/-- A pointer into the string. -/
theorem drop (h : StringAt b i (s ++ t)) : StringAt b (i + s.length) t := by
  refine ⟨fun h0 => h.1 (List.mem_append_right s h0), ?_⟩
  have hall := h.2
  rw [List.append_assoc, ListAt.append_iff] at hall
  exact hall.2

end StringAt

end KmOS
