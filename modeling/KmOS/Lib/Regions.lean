/-
# `KmOS.Lib.Regions` — disjoint regions of an address space

Regions that do not overlap and lie below `N` are together no longer than `N`
(`sum_le_of_disjoint`).  This is what keeps counters of such regions from
wrapping around; `sum_map_change` follows a counter when one region changes.
-/
import Mathlib.Algebra.Ring.Nat
import Mathlib.Order.Interval.Finset.Nat

namespace KmOS

variable {α : Type} {start len : α → Nat}

/-- The addresses covered by some regions. -/
def covered (start len : α → Nat) : List α → Finset Nat
  | [] => ∅
  | p :: l => Finset.Ico (start p) (start p + len p) ∪ covered start len l

theorem mem_covered {a : Nat} {l : List α} :
    a ∈ covered start len l ↔ ∃ p ∈ l, start p ≤ a ∧ a < start p + len p := by
  induction l with
  | nil => simp [covered]
  | cons p l ih => simp [covered, ih]

/-- No two regions share an address. -/
def Disjoints (start len : α → Nat) (l : List α) : Prop :=
  l.Pairwise (fun p q => start p + len p ≤ start q ∨ start q + len q ≤ start p)

theorem Disjoints.of_ne {l : List α} (hd : Disjoints start len l) {p q : α} (hp : p ∈ l) (hq : q ∈ l)
    (hne : p ≠ q) : start p + len p ≤ start q ∨ start q + len q ≤ start p := by
  induction l with
  | nil => exact nomatch hp
  | cons r l ih =>
      obtain ⟨hr, hl⟩ := List.pairwise_cons.mp hd
      rcases List.mem_cons.mp hp with rfl | hp'
      · exact hr q ((List.mem_cons.mp hq).resolve_left hne.symm)
      · rcases List.mem_cons.mp hq with rfl | hq'
        · exact (hr p hp').symm
        · exact ih hl hp' hq'

/-- Disjoint regions cover as many addresses as they have. -/
theorem card_covered {l : List α} (hd : Disjoints start len l) :
    (covered start len l).card = (l.map len).sum := by
  induction l with
  | nil => rfl
  | cons p l ih =>
      obtain ⟨hp, hl⟩ := List.pairwise_cons.mp hd
      have hdis : Disjoint (Finset.Ico (start p) (start p + len p)) (covered start len l) := by
        rw [Finset.disjoint_left]
        intro a ha ha'
        obtain ⟨q, hq, h₁, h₂⟩ := mem_covered.mp ha'
        obtain ⟨h₃, h₄⟩ := Finset.mem_Ico.mp ha
        have := hp q hq
        omega
      rw [covered, Finset.card_union_of_disjoint hdis, Nat.card_Ico, ih hl, List.map_cons,
        List.sum_cons]
      omega

/-- **Disjoint regions below `N`** are together no longer than `N`. -/
theorem sum_le_of_disjoint {l : List α} {N : Nat} (hd : Disjoints start len l)
    (hN : ∀ p ∈ l, start p + len p ≤ N) : (l.map len).sum ≤ N := by
  have hsub : covered start len l ⊆ Finset.range N := by
    intro a ha
    obtain ⟨p, hp, _, h⟩ := mem_covered.mp ha
    have := hN p hp
    exact Finset.mem_range.mpr (by omega)
  calc (l.map len).sum = (covered start len l).card := (card_covered hd).symm
    _ ≤ (Finset.range N).card := Finset.card_le_card hsub
    _ = N := Finset.card_range N

/-- So is anything they hold no more of than they have addresses. -/
theorem sum_weights_lt {l : List α} {w : α → Nat} {N : Nat} (hd : Disjoints start len l)
    (hN : 0 < N) (hw : ∀ p ∈ l, w p ≤ len p ∧ start p + len p < N) : (l.map w).sum < N := by
  have hd' : Disjoints start w l := by
    refine hd.imp_of_mem (fun {p q} hp hq hpq => ?_)
    have h₁ := (hw p hp).1
    have h₂ := (hw q hq).1
    omega
  have hsum := sum_le_of_disjoint (N := N - 1) hd' (fun p hp => by
    have := hw p hp
    omega)
  omega

theorem le_sum_of_mem {l : List α} (f : α → Nat) {a : α} (ha : a ∈ l) : f a ≤ (l.map f).sum := by
  induction l with
  | nil => exact nomatch ha
  | cons b l ih =>
      rw [List.map_cons, List.sum_cons]
      rcases List.mem_cons.mp ha with rfl | ha
      · exact Nat.le_add_right _ _
      · exact Nat.le_trans (ih ha) (Nat.le_add_left _ _)

/-- **A sum in which one term changes.** -/
theorem sum_map_change {l : List α} {f g : α → Nat} {a : α} (hnd : l.Nodup) (ha : a ∈ l)
    (hag : ∀ b ∈ l, b ≠ a → g b = f b) : (l.map g).sum + f a = (l.map f).sum + g a := by
  induction l with
  | nil => exact nomatch ha
  | cons b l ih =>
      obtain ⟨hb, hnd⟩ := List.nodup_cons.mp hnd
      simp only [List.map_cons, List.sum_cons]
      rcases List.mem_cons.mp ha with rfl | ha
      · have hsame : l.map g = l.map f :=
          List.map_congr_left (fun c hc => hag c (List.mem_cons_of_mem a hc) (fun e => hb (e ▸ hc)))
        rw [hsame]
        omega
      · have := ih hnd ha (fun c hc => hag c (List.mem_cons_of_mem b hc))
        have hba : b ≠ a := fun e => hb (e ▸ ha)
        rw [hag b List.mem_cons_self hba]
        omega

end KmOS
