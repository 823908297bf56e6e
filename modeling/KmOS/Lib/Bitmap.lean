/-
# `KmOS.Lib.Bitmap` — allocation bitmaps kept in 32-bit words

A bitmap is an array of words; bit `i` lives in word `i / 32` at position
`i % 32`.  Allocators scan it for the lowest clear bit, word by word and then
bit by bit, set that bit, and clear it again when the unit is given back.

The two facts callers use are `firstClear_eq_some` (the scan finds the least
clear index) and `testBit_setBit` / `testBit_clearBit` (an update moves one
bit and no other).  For allocators that also keep a counter, `count` is the
number of set bits, and `count_setBit` / `count_clearBit` say when an update
moves it by one: when the bit was the other way before.
-/
import Mathlib.Data.Finset.Card
import Mathlib.Data.Finset.Range
import Mathlib.Logic.Function.Basic
import Mathlib.Tactic.Common

namespace KmOS

/-- The words of a bitmap. -/
abbrev Words := Nat → BitVec 32

namespace Words

/-- Bit `i` of the bitmap. -/
def testBit (w : Words) (i : Nat) : Bool := (w (i / 32)).getLsbD (i % 32)

/-- `w[i / 32] |= 1 << (i % 32)`. -/
def setBit (w : Words) (i : Nat) : Words :=
  Function.update w (i / 32) (w (i / 32) ||| (1#32 <<< (i % 32)))

/-- `w[i / 32] &= ~(1 << (i % 32))`. -/
def clearBit (w : Words) (i : Nat) : Words :=
  Function.update w (i / 32) (w (i / 32) &&& ~~~(1#32 <<< (i % 32)))

/-- The inner loop of a scan: the first position from `b` on, among `n`, whose
bit is clear. -/
def clearPos (v : BitVec 32) : Nat → Nat → Option Nat
  | 0, _ => none
  | n + 1, b => if v &&& (1#32 <<< b) = 0#32 then some b else clearPos v n (b + 1)

/-- The outer loop: full words are skipped without looking at their bits. -/
def scanFrom (w : Words) : Nat → Nat → Option Nat
  | 0, _ => none
  | n + 1, i =>
      if w i = 0xFFFFFFFF#32 then scanFrom w n (i + 1)
      else
        match clearPos (w i) 32 0 with
        | some b => some (i * 32 + b)
        | none => scanFrom w n (i + 1)

/-- The lowest clear bit among the first `n` words. -/
def firstClear (w : Words) (n : Nat) : Option Nat := scanFrom w n 0

/-! ## One-bit updates -/

theorem getLsbD_one_shiftLeft {b j : Nat} (hb : b < 32) :
    (1#32 <<< b).getLsbD j = decide (j = b) := by
  have h : (1#32 <<< b) = BitVec.twoPow 32 b := by
    rw [BitVec.twoPow_eq]
  rw [h, BitVec.getLsbD_twoPow]
  by_cases hj : j = b
  · subst hj; simp [hb]
  · simp [hj, Ne.symm hj]

theorem testBit_setBit (w : Words) (i j : Nat) :
    (w.setBit i).testBit j = (decide (j = i) || w.testBit j) := by
  have hi : i % 32 < 32 := Nat.mod_lt _ (by decide)
  unfold testBit setBit
  by_cases hw : j / 32 = i / 32
  · rw [hw, Function.update_self, BitVec.getLsbD_or, getLsbD_one_shiftLeft hi, Bool.or_comm]
    congr 1
    exact decide_eq_decide.mpr (by omega)
  · have hne : j ≠ i := fun h => hw (by rw [h])
    rw [Function.update_of_ne hw]
    simp [hne]

theorem testBit_clearBit (w : Words) (i j : Nat) :
    (w.clearBit i).testBit j = (!decide (j = i) && w.testBit j) := by
  have hi : i % 32 < 32 := Nat.mod_lt _ (by decide)
  have hj : j % 32 < 32 := Nat.mod_lt _ (by decide)
  unfold testBit clearBit
  by_cases hw : j / 32 = i / 32
  · rw [hw, Function.update_self, BitVec.getLsbD_and, BitVec.getLsbD_not,
      getLsbD_one_shiftLeft hi, Bool.and_comm]
    have he : decide (j % 32 = i % 32) = decide (j = i) := decide_eq_decide.mpr (by omega)
    simp [he, hj]
  · have hne : j ≠ i := fun h => hw (by rw [h])
    rw [Function.update_of_ne hw]
    simp [hne]

@[simp] theorem testBit_setBit_self (w : Words) (i : Nat) : (w.setBit i).testBit i = true := by
  simp [testBit_setBit]

@[simp] theorem testBit_clearBit_self (w : Words) (i : Nat) :
    (w.clearBit i).testBit i = false := by
  simp [testBit_clearBit]

theorem testBit_clearBit_of_ne {w : Words} {i j : Nat} (h : j ≠ i) :
    (w.clearBit i).testBit j = w.testBit j := by
  simp [testBit_clearBit, h]

/-- Bitmaps with the same bits are the same words. -/
theorem ext_testBit {w w' : Words} (h : ∀ i, w.testBit i = w'.testBit i) : w = w' := by
  funext n
  apply BitVec.eq_of_getLsbD_eq
  intro b hb
  have hi := h (n * 32 + b)
  unfold testBit at hi
  have h1 : (n * 32 + b) / 32 = n := by omega
  have h2 : (n * 32 + b) % 32 = b := by omega
  rwa [h1, h2] at hi

/-- Giving back a bit that was clear before it was taken restores the words. -/
theorem clearBit_setBit {w : Words} {i : Nat} (h : w.testBit i = false) :
    (w.setBit i).clearBit i = w := by
  apply ext_testBit
  intro j
  rw [testBit_clearBit, testBit_setBit]
  by_cases hj : j = i
  · subst hj; simp [h]
  · simp [hj]

/-! ## The scan finds the lowest clear bit -/

theorem and_one_shiftLeft_eq_zero {v : BitVec 32} {b : Nat} (hb : b < 32) :
    v &&& (1#32 <<< b) = 0#32 ↔ v.getLsbD b = false := by
  constructor
  · intro h
    have := congrArg (fun x => x.getLsbD b) h
    simpa [BitVec.getLsbD_and, getLsbD_one_shiftLeft hb] using this
  · intro h
    apply BitVec.eq_of_getLsbD_eq
    intro j _
    rw [BitVec.getLsbD_and, getLsbD_one_shiftLeft hb]
    by_cases hj : j = b
    · subst hj; simp [h]
    · simp [hj]

theorem clearPos_spec (v : BitVec 32) :
    ∀ (n b : Nat), b + n ≤ 32 →
      match clearPos v n b with
      | some c => b ≤ c ∧ c < b + n ∧ v.getLsbD c = false ∧
          ∀ j, b ≤ j → j < c → v.getLsbD j = true
      | none => ∀ j, b ≤ j → j < b + n → v.getLsbD j = true
  | 0, b, _ => by
      simp only [clearPos]
      intro j h1 h2
      omega
  | n + 1, b, hb => by
      have hb' : b < 32 := by omega
      by_cases hz : v &&& (1#32 <<< b) = 0#32
      · simp only [clearPos, if_pos hz]
        refine ⟨Nat.le_refl b, by omega, (and_one_shiftLeft_eq_zero hb').mp hz, ?_⟩
        intro j h1 h2
        omega
      · have hbit : v.getLsbD b = true := by
          rw [and_one_shiftLeft_eq_zero hb'] at hz
          simpa using hz
        have ih := clearPos_spec v n (b + 1) (by omega)
        simp only [clearPos, if_neg hz]
        cases hc : clearPos v n (b + 1) with
        | some c =>
            rw [hc] at ih
            obtain ⟨h1, h2, h3, h4⟩ := ih
            refine ⟨by omega, by omega, h3, ?_⟩
            intro j hj1 hj2
            by_cases hjb : j = b
            · rw [hjb]; exact hbit
            · exact h4 j (by omega) hj2
        | none =>
            rw [hc] at ih
            intro j hj1 hj2
            by_cases hjb : j = b
            · rw [hjb]; exact hbit
            · exact ih j (by omega) (by omega)

/-- A word other than `0xFFFFFFFF` has a clear bit, so the inner loop of the
scan never comes back empty-handed. -/
theorem clearPos_isSome {v : BitVec 32} (h : v ≠ 0xFFFFFFFF#32) : clearPos v 32 0 ≠ none := by
  intro hn
  have hs := clearPos_spec v 32 0 (Nat.le_refl 32)
  rw [hn] at hs
  apply h
  apply BitVec.eq_of_getLsbD_eq
  intro j hj
  rw [hs j (Nat.zero_le j) (by omega)]
  have hall : (0xFFFFFFFF#32 : BitVec 32) = BitVec.allOnes 32 := by decide
  rw [hall, BitVec.getLsbD_allOnes]
  simp [hj]

theorem testBit_of_full {w : Words} {i : Nat} (h : w i = 0xFFFFFFFF#32) {j : Nat}
    (hj : j / 32 = i) : w.testBit j = true := by
  have hall : (0xFFFFFFFF#32 : BitVec 32) = BitVec.allOnes 32 := by decide
  unfold testBit
  rw [hj, h, hall, BitVec.getLsbD_allOnes]
  have : j % 32 < 32 := Nat.mod_lt _ (by decide)
  simpa using this

/-- What the scan from word `i` on answers. -/
theorem scanFrom_spec (w : Words) :
    ∀ (n i : Nat),
      match scanFrom w n i with
      | some c => i * 32 ≤ c ∧ c < (i + n) * 32 ∧ w.testBit c = false ∧
          ∀ j, i * 32 ≤ j → j < c → w.testBit j = true
      | none => ∀ j, i * 32 ≤ j → j < (i + n) * 32 → w.testBit j = true
  | 0, i => by
      simp only [scanFrom]
      intro j h1 h2
      omega
  | n + 1, i => by
      have ih := scanFrom_spec w n (i + 1)
      by_cases hw : w i = 0xFFFFFFFF#32
      · simp only [scanFrom, if_pos hw]
        cases hc : scanFrom w n (i + 1) with
        | some c =>
            rw [hc] at ih
            obtain ⟨h1, h2, h3, h4⟩ := ih
            refine ⟨by omega, by omega, h3, ?_⟩
            intro j hj1 hj2
            by_cases hji : j / 32 = i
            · exact testBit_of_full hw hji
            · exact h4 j (by omega) hj2
        | none =>
            rw [hc] at ih
            intro j hj1 hj2
            by_cases hji : j / 32 = i
            · exact testBit_of_full hw hji
            · exact ih j (by omega) (by omega)
      · simp only [scanFrom, if_neg hw]
        have hs := clearPos_spec (w i) 32 0 (Nat.le_refl 32)
        cases hb : clearPos (w i) 32 0 with
        | none => exact absurd hb (clearPos_isSome hw)
        | some b =>
            rw [hb] at hs
            obtain ⟨_, h2, h3, h4⟩ := hs
            have hdiv : (i * 32 + b) / 32 = i := by omega
            have hmod : (i * 32 + b) % 32 = b := by omega
            refine ⟨by omega, by omega, ?_, ?_⟩
            · unfold testBit
              rw [hdiv, hmod]
              exact h3
            · intro j hj1 hj2
              have hj : j / 32 = i := by omega
              unfold testBit
              rw [hj]
              exact h4 (j % 32) (Nat.zero_le _) (by omega)

/-- **The scan.**  It answers the least clear index below `32 * n`. -/
theorem firstClear_eq_some {w : Words} {n c : Nat} (h : w.firstClear n = some c) :
    c < 32 * n ∧ w.testBit c = false ∧ ∀ j, j < c → w.testBit j = true := by
  have hs := scanFrom_spec w n 0
  unfold firstClear at h
  rw [h] at hs
  obtain ⟨_, h2, h3, h4⟩ := hs
  exact ⟨by omega, h3, fun j hj => h4 j (by omega) hj⟩

theorem firstClear_eq_none {w : Words} {n : Nat} (h : w.firstClear n = none) :
    ∀ j, j < 32 * n → w.testBit j = true := by
  have hs := scanFrom_spec w n 0
  unfold firstClear at h
  rw [h] at hs
  exact fun j hj => hs j (by omega) (by omega)

/-! ## Counting -/

/-- How many of the first `n` bits are set. -/
def count (w : Words) (n : Nat) : Nat :=
  ((Finset.range n).filter (fun i => w.testBit i = true)).card

theorem count_le (w : Words) (n : Nat) : w.count n ≤ n := by
  have h := Finset.card_filter_le (Finset.range n) (fun i => w.testBit i = true)
  rwa [Finset.card_range] at h

/-- The bits that are not counted are the clear ones. -/
theorem card_clear (w : Words) (n : Nat) :
    ((Finset.range n).filter (fun i => w.testBit i = false)).card = n - w.count n := by
  have h := Finset.card_filter_add_card_filter_not (s := Finset.range n)
    (fun i => w.testBit i = true)
  rw [Finset.card_range] at h
  simp only [Bool.not_eq_true] at h
  unfold count
  omega

/-- Setting a bit that was clear counts one more. -/
theorem count_setBit {w : Words} {n i : Nat} (hi : i < n) (h : w.testBit i = false) :
    (w.setBit i).count n = w.count n + 1 := by
  have hset : (Finset.range n).filter (fun j => (w.setBit i).testBit j = true) =
      insert i ((Finset.range n).filter (fun j => w.testBit j = true)) := by
    ext j
    simp only [Finset.mem_filter, Finset.mem_range, Finset.mem_insert, testBit_setBit,
      Bool.or_eq_true, decide_eq_true_eq]
    constructor
    · rintro ⟨hj, rfl | hb⟩
      · exact Or.inl rfl
      · exact Or.inr ⟨hj, hb⟩
    · rintro (rfl | ⟨hj, hb⟩)
      · exact ⟨hi, Or.inl rfl⟩
      · exact ⟨hj, Or.inr hb⟩
  unfold count
  rw [hset, Finset.card_insert_of_notMem]
  simp [h]

/-- Clearing a bit that was set counts one less. -/
theorem count_clearBit {w : Words} {n i : Nat} (hi : i < n) (h : w.testBit i = true) :
    (w.clearBit i).count n + 1 = w.count n := by
  have hset : (Finset.range n).filter (fun j => (w.clearBit i).testBit j = true) =
      ((Finset.range n).filter (fun j => w.testBit j = true)).erase i := by
    ext j
    simp only [Finset.mem_filter, Finset.mem_range, Finset.mem_erase, testBit_clearBit,
      Bool.and_eq_true, Bool.not_eq_true', decide_eq_false_iff_not]
    constructor
    · rintro ⟨hj, hne, hb⟩
      exact ⟨hne, hj, hb⟩
    · rintro ⟨hne, hj, hb⟩
      exact ⟨hj, hne, hb⟩
  unfold count
  rw [hset]
  apply Finset.card_erase_add_one
  simp [hi, h]

/-- Clearing a bit that is clear already changes nothing. -/
theorem clearBit_of_clear {w : Words} {i : Nat} (h : w.testBit i = false) : w.clearBit i = w := by
  apply ext_testBit
  intro j
  rw [testBit_clearBit]
  by_cases hj : j = i
  · subst hj; simp [h]
  · simp [hj]

/-- A bitmap with fewer bits counts less. -/
theorem count_lt {w w' : Words} {n i : Nat} (h : ∀ i, w.testBit i = true → w'.testBit i = true)
    (hi : i < n) (h0 : w.testBit i = false) (h1 : w'.testBit i = true) : w.count n < w'.count n := by
  apply Finset.card_lt_card
  refine ⟨?_, ?_⟩
  · intro j hj
    rw [Finset.mem_filter] at hj ⊢
    exact ⟨hj.1, h j hj.2⟩
  · intro hsub
    have hin := hsub (Finset.mem_filter.mpr ⟨Finset.mem_range.mpr hi, h1⟩)
    rw [Finset.mem_filter, h0] at hin
    exact absurd hin.2 (by decide)

end Words

end KmOS
