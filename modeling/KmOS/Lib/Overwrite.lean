/-
# `KmOS.Lib.Overwrite` — two runs from memories with different contents

`fill` overwrites a range of memory with a pattern; it is what storing the bytes
of the pattern one after the other gives.

`SameWrites` compares a run from the memory `m` to `m₁` with a run from `m'` to
`m₁'`: every byte is the same at the end, or neither run has changed it.  So
nothing the two memories differ in has been copied or has decided what was
written.  Runs compose, and stores of the same value are such runs.
-/
import KmOS.Lib.Freelist

namespace KmOS

namespace Memory

/-- `m` with the bytes of `p` in the place of the `n` bytes from `a` on. -/
def fill (m : Memory) (a n : Nat) (p : Memory) : Memory :=
  fun x => if a ≤ x ∧ x < a + n then p (x - a) else m x

theorem fill_zero (m : Memory) (a : Nat) (p : Memory) : m.fill a 0 p = m := by
  funext x
  unfold fill
  rw [if_neg (by omega)]

theorem fill_succ (m : Memory) (a n : Nat) (p : Memory) :
    m.fill a (n + 1) p = (m.fill a n p).store8 (a + n) (p n) := by
  funext x
  by_cases e : x = a + n
  · rw [e, store8_eq_self]
    unfold fill
    rw [if_pos (by omega), Nat.add_sub_cancel_left]
  · rw [store8_eq_of_ne e]
    unfold fill
    by_cases hx : a ≤ x ∧ x < a + n
    · rw [if_pos hx, if_pos (by omega)]
    · rw [if_neg hx, if_neg (by omega)]

/-- The mark of an object that has been overwritten is in the pattern. -/
theorem mark_fill {n : Nat} (hn : 8 ≤ n) (m : Memory) (a : Nat) (p : Memory) :
    (m.fill a n p).mark a = p.mark 0 := by
  have hbyte : ∀ i, i < n → m.fill a n p (a + i) = p i := by
    intro i hi
    unfold fill
    rw [if_pos (by omega), Nat.add_sub_cancel_left]
  unfold mark load32
  rw [Nat.add_assoc a 4 1, Nat.add_assoc a 4 2, Nat.add_assoc a 4 3, hbyte 4 (by omega),
    hbyte (4 + 1) (by omega), hbyte (4 + 2) (by omega), hbyte (4 + 3) (by omega), Nat.zero_add]

/-! ## Two runs -/

variable {m m' m₁ m₁' m₂ m₂' : Memory}

/-- Each byte ends up the same, or is changed by neither run. -/
def SameWrites (m m' m₁ m₁' : Memory) : Prop := ∀ x, m₁' x = m₁ x ∨ m₁ x = m x ∧ m₁' x = m' x

theorem SameWrites.refl (m m' : Memory) : SameWrites m m' m m' := fun _ => Or.inr ⟨rfl, rfl⟩

theorem SameWrites.trans (h : SameWrites m m' m₁ m₁') (h' : SameWrites m₁ m₁' m₂ m₂') :
    SameWrites m m' m₂ m₂' := by
  intro x
  rcases h' x with e | ⟨e, e'⟩
  · exact Or.inl e
  · rw [e, e']
    exact h x

theorem SameWrites.store32 (m m' : Memory) (a v : Nat) :
    SameWrites m m' (m.store32 a v) (m'.store32 a v) := by
  intro x
  by_cases hx : x < a ∨ a + 4 ≤ x
  · exact Or.inr ⟨store32_eq_of_outside hx, store32_eq_of_outside hx⟩
  · refine Or.inl ?_
    unfold Memory.store32
    split
    · rfl
    split
    · rfl
    split
    · rfl
    split
    · rfl
    · omega

end Memory

end KmOS
