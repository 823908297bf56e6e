/-
# `KmOS.Lib.Bytes` — byte memory with little-endian words

Memory is a function from addresses to bytes.  A word occupies four bytes,
least significant first.  Reading back what was stored gives it again
(`load32_store32`), and a store changes nothing outside its own bytes
(`store32_eq_of_outside`), so reads elsewhere are unaffected whatever their
width.  Structures that lie `Apart` do not see each other's fields change
(`load32_store32_field`).
-/
import Mathlib.Algebra.Ring.Nat
import Mathlib.Logic.Function.Basic
import Mathlib.Tactic.Common

namespace KmOS

/-- Byte-addressed memory. -/
abbrev Memory := Nat → UInt8

namespace Memory

/-- The word at `a`. -/
def load32 (m : Memory) (a : Nat) : Nat :=
  (m a).toNat + 256 * (m (a + 1)).toNat + 65536 * (m (a + 2)).toNat + 16777216 * (m (a + 3)).toNat

/-- Store the low 32 bits of `v` at `a`. -/
def store32 (m : Memory) (a v : Nat) : Memory := fun b =>
  if b = a then UInt8.ofNat v
  else if b = a + 1 then UInt8.ofNat (v / 256)
  else if b = a + 2 then UInt8.ofNat (v / 65536)
  else if b = a + 3 then UInt8.ofNat (v / 16777216)
  else m b

/-- Store one byte at `a`. -/
def store8 (m : Memory) (a : Nat) (v : UInt8) : Memory := Function.update m a v

theorem load32_store32 (m : Memory) (a v : Nat) : (m.store32 a v).load32 a = v % 4294967296 := by
  have h1 : a + 1 ≠ a := by omega
  have h2 : a + 2 ≠ a ∧ a + 2 ≠ a + 1 := by omega
  have h3 : a + 3 ≠ a ∧ a + 3 ≠ a + 1 ∧ a + 3 ≠ a + 2 := by omega
  simp only [load32, store32, if_true, if_neg h1, if_neg h2.1, if_neg h2.2, if_neg h3.1,
    if_neg h3.2.1, if_neg h3.2.2, UInt8.toNat_ofNat']
  omega

/-- A word store is confined to its four bytes. -/
theorem store32_eq_of_outside {m : Memory} {a v b : Nat} (h : b < a ∨ a + 4 ≤ b) :
    m.store32 a v b = m b := by
  have h0 : b ≠ a := by omega
  have h1 : b ≠ a + 1 := by omega
  have h2 : b ≠ a + 2 := by omega
  have h3 : b ≠ a + 3 := by omega
  simp only [store32, if_neg h0, if_neg h1, if_neg h2, if_neg h3]

/-- A byte store is confined to its byte. -/
theorem store8_eq_of_ne {m : Memory} {a b : Nat} {v : UInt8} (h : b ≠ a) :
    m.store8 a v b = m b := by
  simp [store8, h]

theorem store8_eq_self (m : Memory) (a : Nat) (v : UInt8) : m.store8 a v a = v := by
  simp [store8]

/-- A word is decided by its four bytes. -/
theorem load32_congr {m m' : Memory} {a : Nat} (h : ∀ b, a ≤ b → b < a + 4 → m' b = m b) :
    m'.load32 a = m.load32 a := by
  have h0 := h a (by omega) (by omega)
  have h1 := h (a + 1) (by omega) (by omega)
  have h2 := h (a + 2) (by omega) (by omega)
  have h3 := h (a + 3) (by omega) (by omega)
  simp only [load32, h0, h1, h2, h3]

theorem load32_store32_of_disjoint {m : Memory} {a v b : Nat} (h : b + 4 ≤ a ∨ a + 4 ≤ b) :
    (m.store32 a v).load32 b = m.load32 b := by
  apply load32_congr
  intro c hc hc'
  exact store32_eq_of_outside (by omega)

theorem load32_store8_of_disjoint {m : Memory} {a b : Nat} {v : UInt8}
    (h : b + 4 ≤ a ∨ a + 1 ≤ b) : (m.store8 a v).load32 b = m.load32 b := by
  apply load32_congr
  intro c hc hc'
  exact store8_eq_of_ne (by omega)

/-- Two structures of `n` bytes: the same one, or apart. -/
def Apart (n a b : Nat) : Prop := a = b ∨ a + n ≤ b ∨ b + n ≤ a

theorem Apart.symm {n a b : Nat} (h : Apart n a b) : Apart n b a := by
  rcases h with h | h | h
  · exact Or.inl h.symm
  · exact Or.inr (Or.inr h)
  · exact Or.inr (Or.inl h)

/-- A store to the word field at offset `i` of one structure, seen at the
field at offset `j` of another (or of the same). -/
theorem load32_store32_field {m : Memory} {n a b i j v : Nat} (h : Apart n a b)
    (hi : i + 4 ≤ n) (hj : j + 4 ≤ n) (hij : i = j ∨ i + 4 ≤ j ∨ j + 4 ≤ i) :
    (m.store32 (a + i) v).load32 (b + j) =
      if b = a ∧ j = i then v % 4294967296 else m.load32 (b + j) := by
  split
  · next e =>
      rw [e.1, e.2]
      exact load32_store32 m (a + i) v
  · next e =>
      refine load32_store32_of_disjoint ?_
      unfold Apart at h
      omega

theorem load32_lt (m : Memory) (a : Nat) : m.load32 a < 4294967296 := by
  have h0 := (m a).toNat_lt
  have h1 := (m (a + 1)).toNat_lt
  have h2 := (m (a + 2)).toNat_lt
  have h3 := (m (a + 3)).toNat_lt
  unfold load32
  omega

end Memory

end KmOS
