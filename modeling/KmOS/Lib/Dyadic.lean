/-
# `KmOS.Lib.Dyadic` — tilings of an interval by aligned blocks of size `2 ^ k`

A tiling of `[0, n)` is a partial function from offsets to orders: `tile o =
some k` is a block `[o, o + 2 ^ k)`.  Blocks are aligned to their own size,
have order at most `M`, are pairwise disjoint and cover the interval.

The one fact a buddy allocator rests on is `Tiling.buddy_starts`: the address
obtained from an aligned block by flipping the bit of its own size is, if it
lies in the interval at all, the start of a block, and of one no larger.
-/
import Mathlib.Logic.Function.Basic
import Mathlib.Data.Nat.Bitwise
import Mathlib.Tactic.Ring
import Mathlib.Tactic.Linarith

namespace KmOS

/-! ## Buddies -/

/-- The other half of the aligned block of order `k + 1` around `o`. -/
def buddyOf (k o : Nat) : Nat := (o / 2 ^ k ^^^ 1) * 2 ^ k

theorem xor_one_eq (q : Nat) : q ^^^ 1 = if q % 2 = 0 then q + 1 else q - 1 := by
  split
  · next h => exact Nat.xor_one_of_even (Nat.even_iff.mpr h)
  · next h => exact Nat.xor_one_of_odd (Nat.odd_iff.mpr (by omega))

/-- Of two buddies the lower is aligned to the doubled size and the upper
follows it. -/
theorem buddyOf_cases {k o : Nat} (h : 2 ^ k ∣ o) :
    (2 ^ (k + 1) ∣ o ∧ buddyOf k o = o + 2 ^ k) ∨
      (2 ^ (k + 1) ∣ buddyOf k o ∧ o = buddyOf k o + 2 ^ k) := by
  obtain ⟨q, rfl⟩ := h
  have hpos : 0 < 2 ^ k := Nat.two_pow_pos k
  have hq : 2 ^ k * q / 2 ^ k = q := Nat.mul_div_cancel_left q hpos
  unfold buddyOf
  rw [hq, xor_one_eq]
  split
  · next he =>
      left
      refine ⟨?_, by ring⟩
      obtain ⟨r, hr⟩ := Nat.dvd_of_mod_eq_zero he
      exact ⟨r, by rw [hr]; ring⟩
  · next ho =>
      right
      obtain ⟨r, hr⟩ : ∃ r, q = 2 * r + 1 := ⟨q / 2, by omega⟩
      subst hr
      rw [Nat.add_sub_cancel]
      exact ⟨⟨r, by ring⟩, by ring⟩

theorem buddyOf_ne {k o : Nat} (h : 2 ^ k ∣ o) : buddyOf k o ≠ o := by
  have hpos : 0 < 2 ^ k := Nat.two_pow_pos k
  rcases buddyOf_cases h with ⟨_, he⟩ | ⟨_, he⟩ <;> omega

/-- Being buddies is mutual. -/
theorem buddyOf_buddyOf {k o : Nat} (h : 2 ^ k ∣ o) : buddyOf k (buddyOf k o) = o := by
  have hpos : 0 < 2 ^ k := Nat.two_pow_pos k
  have hq : (o / 2 ^ k ^^^ 1) * 2 ^ k / 2 ^ k = o / 2 ^ k ^^^ 1 := Nat.mul_div_cancel _ hpos
  unfold buddyOf
  rw [hq, Nat.xor_assoc, Nat.xor_self, Nat.xor_zero]
  exact Nat.div_mul_cancel h

theorem dvd_buddyOf (k o : Nat) : 2 ^ k ∣ buddyOf k o := ⟨_, Nat.mul_comm _ _⟩

/-- An aligned block that contains a point aligned to a size no smaller than
its own starts there. -/
theorem eq_of_mem_aligned {b j p : Nat} (hb : 2 ^ j ∣ b) (hp : 2 ^ j ∣ p) (h1 : b ≤ p)
    (h2 : p < b + 2 ^ j) : b = p := by
  obtain ⟨x, rfl⟩ := hb
  obtain ⟨y, rfl⟩ := hp
  have hpos : 0 < 2 ^ j := Nat.two_pow_pos j
  have hle : x ≤ y := Nat.le_of_mul_le_mul_left h1 hpos
  have hlt : y < x + 1 := by
    have : 2 ^ j * y < 2 ^ j * (x + 1) := by rw [Nat.mul_add, Nat.mul_one]; exact h2
    exact Nat.lt_of_mul_lt_mul_left this
  have : x = y := by omega
  rw [this]

/-- An aligned block that contains the start of a smaller aligned block
contains all of it. -/
theorem end_le_of_mem_aligned {b j c i : Nat} (hb : 2 ^ j ∣ b) (hc : 2 ^ i ∣ c) (hij : i ≤ j)
    (h2 : c < b + 2 ^ j) : c + 2 ^ i ≤ b + 2 ^ j := by
  obtain ⟨x, hx⟩ : 2 ^ i ∣ b + 2 ^ j :=
    Nat.dvd_add (dvd_trans (pow_dvd_pow 2 hij) hb) (pow_dvd_pow 2 hij)
  obtain ⟨y, rfl⟩ := hc
  have hlt : y < x := by
    rw [hx] at h2
    exact Nat.lt_of_mul_lt_mul_left h2
  calc 2 ^ i * y + 2 ^ i = 2 ^ i * (y + 1) := by ring
    _ ≤ 2 ^ i * x := Nat.mul_le_mul_left _ hlt
    _ = b + 2 ^ j := hx.symm

/-! ## Tilings -/

/-- The blocks of `tile` partition `[0, n)`. -/
structure Tiling (M n : Nat) (tile : Nat → Option Nat) : Prop where
  order_le : ∀ {o k}, tile o = some k → k ≤ M
  aligned : ∀ {o k}, tile o = some k → 2 ^ k ∣ o
  inside : ∀ {o k}, tile o = some k → o + 2 ^ k ≤ n
  disjoint : ∀ {o k o' k'}, tile o = some k → tile o' = some k' → o < o' → o + 2 ^ k ≤ o'
  cover : ∀ {p}, p < n → ∃ o k, tile o = some k ∧ o ≤ p ∧ p < o + 2 ^ k

/-- A block cut in two halves. -/
def splitTile (tile : Nat → Option Nat) (o k : Nat) : Nat → Option Nat :=
  Function.update (Function.update tile o (some k)) (o + 2 ^ k) (some k)

/-- Two halves joined to one block. -/
def mergeTile (tile : Nat → Option Nat) (o k : Nat) : Nat → Option Nat :=
  Function.update (Function.update tile (o + 2 ^ k) none) o (some (k + 1))

namespace Tiling

variable {M n : Nat} {tile : Nat → Option Nat}

theorem lt {o k : Nat} (h : Tiling M n tile) (ho : tile o = some k) : o < n :=
  Nat.lt_of_lt_of_le (Nat.lt_add_of_pos_right (Nat.two_pow_pos k)) (h.inside ho)

/-- Two blocks with a common point are one. -/
theorem eq_of_mem {o k o' k' p : Nat} (h : Tiling M n tile) (ho : tile o = some k)
    (ho' : tile o' = some k') (h1 : o ≤ p) (h2 : p < o + 2 ^ k) (h3 : o' ≤ p)
    (h4 : p < o' + 2 ^ k') : o = o' := by
  rcases Nat.lt_trichotomy o o' with hlt | heq | hgt
  · have := h.disjoint ho ho' hlt
    omega
  · exact heq
  · have := h.disjoint ho' ho hgt
    omega

/-- **The buddy of a block is the start of a block**, no larger than it. -/
theorem buddy_starts {o k : Nat} (h : Tiling M n tile) (ho : tile o = some k)
    (hb : buddyOf k o < n) : ∃ j, j ≤ k ∧ tile (buddyOf k o) = some j := by
  have hpos : 0 < 2 ^ k := Nat.two_pow_pos k
  obtain ⟨b, j, hbj, h1, h2⟩ := h.cover hb
  rcases Nat.lt_or_ge k j with hkj | hjk
  · -- a larger block around the buddy would contain `o` as well
    exfalso
    have hdb : 2 ^ (k + 1) ∣ b := dvd_trans (pow_dvd_pow 2 hkj) (h.aligned hbj)
    have hob : b ≤ o ∧ o < b + 2 ^ j := by
      rcases buddyOf_cases (h.aligned ho) with ⟨hd, he⟩ | ⟨hd, he⟩
      · -- the lower half starts a block of order `k + 1` that `b` cannot cut
        have hle : b ≤ o := by
          by_contra hlt
          have := eq_of_mem_aligned hd hdb (by omega) (by rw [pow_succ]; omega)
          omega
        exact ⟨hle, by omega⟩
      · have := end_le_of_mem_aligned (h.aligned hbj) hd hkj h2
        rw [pow_succ] at this
        exact ⟨by omega, by omega⟩
    have heq := h.eq_of_mem hbj ho hob.1 hob.2 (Nat.le_refl o) (by omega)
    subst heq
    rw [hbj] at ho
    have := Option.some.inj ho
    omega
  · have heq : b = buddyOf k o :=
      eq_of_mem_aligned (h.aligned hbj) (dvd_trans (pow_dvd_pow 2 hjk) (dvd_buddyOf k o)) h1 h2
    exact ⟨j, hjk, heq ▸ hbj⟩

/-- The empty interval. -/
theorem empty : Tiling M 0 (fun _ => none) where
  order_le := fun h => nomatch h
  aligned := fun h => nomatch h
  inside := fun h => nomatch h
  disjoint := fun h => nomatch h
  cover := fun h => absurd h (Nat.not_lt_zero _)

/-- A block laid at the end of the interval. -/
theorem extend {k : Nat} (h : Tiling M n tile) (hk : k ≤ M) (hd : 2 ^ k ∣ n) :
    Tiling M (n + 2 ^ k) (Function.update tile n (some k)) := by
  have hcase : ∀ {o j}, Function.update tile n (some k) o = some j →
      (o = n ∧ j = k) ∨ (o < n ∧ tile o = some j) := by
    intro o j hj
    by_cases ho : o = n
    · subst ho
      rw [Function.update_self] at hj
      exact Or.inl ⟨rfl, (Option.some.inj hj).symm⟩
    · rw [Function.update_of_ne ho] at hj
      exact Or.inr ⟨h.lt hj, hj⟩
  refine ⟨?_, ?_, ?_, ?_, ?_⟩
  · intro o j hj
    rcases hcase hj with ⟨_, rfl⟩ | ⟨_, hj⟩
    · exact hk
    · exact h.order_le hj
  · intro o j hj
    rcases hcase hj with ⟨rfl, rfl⟩ | ⟨_, hj⟩
    · exact hd
    · exact h.aligned hj
  · intro o j hj
    rcases hcase hj with ⟨rfl, rfl⟩ | ⟨_, hj⟩
    · exact Nat.le_refl _
    · exact Nat.le_trans (h.inside hj) (Nat.le_add_right _ _)
  · intro o j o' j' hj hj' hlt
    rcases hcase hj with ⟨ho, _⟩ | ⟨_, hold⟩
    · rcases hcase hj' with ⟨ho', _⟩ | ⟨ho', _⟩ <;> omega
    · rcases hcase hj' with ⟨rfl, _⟩ | ⟨_, hold'⟩
      · exact h.inside hold
      · exact h.disjoint hold hold' hlt
  · intro p hp
    by_cases hpn : p < n
    · obtain ⟨o, j, ho, h1, h2⟩ := h.cover hpn
      refine ⟨o, j, ?_, h1, h2⟩
      rw [Function.update_of_ne (Nat.ne_of_lt (h.lt ho))]
      exact ho
    · exact ⟨n, k, Function.update_self .., by omega, hp⟩

/-! ### Splitting a block -/

theorem splitTile_cases {o k x j : Nat} (h : splitTile tile o k x = some j) :
    ((x = o ∨ x = o + 2 ^ k) ∧ j = k) ∨ (x ≠ o ∧ x ≠ o + 2 ^ k ∧ tile x = some j) := by
  unfold splitTile at h
  by_cases h1 : x = o + 2 ^ k
  · rw [h1, Function.update_self] at h
    exact Or.inl ⟨Or.inr h1, (Option.some.inj h).symm⟩
  · rw [Function.update_of_ne h1] at h
    by_cases h2 : x = o
    · rw [h2, Function.update_self] at h
      exact Or.inl ⟨Or.inl h2, (Option.some.inj h).symm⟩
    · rw [Function.update_of_ne h2] at h
      exact Or.inr ⟨h2, h1, h⟩

@[simp] theorem splitTile_upper (tile : Nat → Option Nat) (o k : Nat) :
    splitTile tile o k (o + 2 ^ k) = some k := Function.update_self ..

@[simp] theorem splitTile_lower (tile : Nat → Option Nat) (o k : Nat) :
    splitTile tile o k o = some k := by
  have hpos : 0 < 2 ^ k := Nat.two_pow_pos k
  unfold splitTile
  rw [Function.update_of_ne (by omega), Function.update_self]

theorem splitTile_other {o k x : Nat} (h1 : x ≠ o) (h2 : x ≠ o + 2 ^ k) :
    splitTile tile o k x = tile x := by
  unfold splitTile
  rw [Function.update_of_ne h2, Function.update_of_ne h1]

/-- Nothing starts in the middle of a block. -/
theorem no_start_inside {o k x : Nat} (h : Tiling M n tile) (ho : tile o = some k) (h1 : o < x)
    (h2 : x < o + 2 ^ k) : tile x = none := by
  cases hx : tile x with
  | none => rfl
  | some j =>
      have := h.disjoint ho hx h1
      omega

/-- **Splitting** keeps a tiling. -/
theorem split {o k : Nat} (h : Tiling M n tile) (ho : tile o = some (k + 1)) :
    Tiling M n (splitTile tile o k) := by
  have hpos : 0 < 2 ^ k := Nat.two_pow_pos k
  have hdouble : 2 ^ (k + 1) = 2 ^ k + 2 ^ k := by ring
  have hin := h.inside ho
  have hdo : 2 ^ k ∣ o := dvd_trans (pow_dvd_pow 2 (Nat.le_succ k)) (h.aligned ho)
  have hkM := h.order_le ho
  refine ⟨?_, ?_, ?_, ?_, ?_⟩
  · intro x j hx
    rcases splitTile_cases hx with ⟨_, rfl⟩ | ⟨_, _, hx⟩
    · omega
    · exact h.order_le hx
  · intro x j hx
    rcases splitTile_cases hx with ⟨hxo, rfl⟩ | ⟨_, _, hx⟩
    · rcases hxo with rfl | rfl
      · exact hdo
      · exact Nat.dvd_add hdo (Nat.dvd_refl _)
    · exact h.aligned hx
  · intro x j hx
    rcases splitTile_cases hx with ⟨hxo, rfl⟩ | ⟨_, _, hx⟩
    · rcases hxo with rfl | rfl <;> omega
    · exact h.inside hx
  · intro x j x' j' hx hx' hlt
    rcases splitTile_cases hx with ⟨hxo, hj⟩ | ⟨hne, _, hold⟩
    · rcases splitTile_cases hx' with ⟨hxo', _⟩ | ⟨_, _, hold'⟩
      · subst hj
        rcases hxo with rfl | rfl <;> rcases hxo' with rfl | rfl <;> omega
      · -- an old block to the right of either half lies right of the whole
        have := h.disjoint ho hold' (by omega)
        subst hj
        rcases hxo with rfl | rfl <;> omega
    · rcases splitTile_cases hx' with ⟨hxo', _⟩ | ⟨_, _, hold'⟩
      · have hlo : x < o := by
          rcases Nat.lt_or_ge x o with hlo | hge
          · exact hlo
          · have hnone := h.no_start_inside ho (by omega) (by omega : x < o + 2 ^ (k + 1))
            rw [hnone] at hold
            exact nomatch hold
        have := h.disjoint hold ho hlo
        omega
      · exact h.disjoint hold hold' hlt
  · intro p hp
    obtain ⟨x, j, hx, h1, h2⟩ := h.cover hp
    by_cases hxo : x = o
    · subst hxo
      rw [ho] at hx
      obtain rfl := Option.some.inj hx
      by_cases hhalf : p < x + 2 ^ k
      · exact ⟨x, k, splitTile_lower tile x k, h1, hhalf⟩
      · exact ⟨x + 2 ^ k, k, splitTile_upper tile x k, by omega, by omega⟩
    · refine ⟨x, j, ?_, h1, h2⟩
      rw [splitTile_other hxo]
      · exact hx
      · rintro rfl
        have hnone := h.no_start_inside ho (by omega) (by omega : o + 2 ^ k < o + 2 ^ (k + 1))
        rw [hnone] at hx
        exact nomatch hx

/-! ### Merging two halves -/

theorem mergeTile_cases {o k x j : Nat} (h : mergeTile tile o k x = some j) :
    (x = o ∧ j = k + 1) ∨ (x ≠ o ∧ x ≠ o + 2 ^ k ∧ tile x = some j) := by
  unfold mergeTile at h
  by_cases h1 : x = o
  · rw [h1, Function.update_self] at h
    exact Or.inl ⟨h1, (Option.some.inj h).symm⟩
  · rw [Function.update_of_ne h1] at h
    by_cases h2 : x = o + 2 ^ k
    · rw [h2, Function.update_self] at h
      exact nomatch h
    · rw [Function.update_of_ne h2] at h
      exact Or.inr ⟨h1, h2, h⟩

@[simp] theorem mergeTile_lower (tile : Nat → Option Nat) (o k : Nat) :
    mergeTile tile o k o = some (k + 1) := Function.update_self ..

theorem mergeTile_other {o k x : Nat} (h1 : x ≠ o) (h2 : x ≠ o + 2 ^ k) :
    mergeTile tile o k x = tile x := by
  unfold mergeTile
  rw [Function.update_of_ne h1, Function.update_of_ne h2]

/-- **Merging** two buddies keeps a tiling. -/
theorem merge {o k : Nat} (h : Tiling M n tile) (hk : k < M) (hd : 2 ^ (k + 1) ∣ o)
    (ho : tile o = some k) (hu : tile (o + 2 ^ k) = some k) : Tiling M n (mergeTile tile o k) := by
  have hpos : 0 < 2 ^ k := Nat.two_pow_pos k
  have hdouble : 2 ^ (k + 1) = 2 ^ k + 2 ^ k := by ring
  have hin := h.inside hu
  refine ⟨?_, ?_, ?_, ?_, ?_⟩
  · intro x j hx
    rcases mergeTile_cases hx with ⟨_, rfl⟩ | ⟨_, _, hx⟩
    · exact hk
    · exact h.order_le hx
  · intro x j hx
    rcases mergeTile_cases hx with ⟨rfl, rfl⟩ | ⟨_, _, hx⟩
    · exact hd
    · exact h.aligned hx
  · intro x j hx
    rcases mergeTile_cases hx with ⟨rfl, rfl⟩ | ⟨_, _, hx⟩
    · omega
    · exact h.inside hx
  · intro x j x' j' hx hx' hlt
    rcases mergeTile_cases hx with ⟨hxo, hj⟩ | ⟨hne, hneu, hold⟩
    · rcases mergeTile_cases hx' with ⟨hxo', _⟩ | ⟨_, hneu', hold'⟩
      · omega
      · -- an old block to the right of the lower half lies right of both
        subst hxo
        subst hj
        have h1 := h.disjoint ho hold' hlt
        have h2 := h.disjoint hu hold' (by omega)
        omega
    · rcases mergeTile_cases hx' with ⟨hxo', _⟩ | ⟨_, _, hold'⟩
      · subst hxo'
        exact h.disjoint hold ho hlt
      · exact h.disjoint hold hold' hlt
  · intro p hp
    obtain ⟨x, j, hx, h1, h2⟩ := h.cover hp
    by_cases hxo : x = o
    · subst hxo
      rw [ho] at hx
      obtain rfl := Option.some.inj hx
      exact ⟨x, k + 1, mergeTile_lower tile x k, h1, by omega⟩
    · by_cases hxu : x = o + 2 ^ k
      · subst hxu
        rw [hu] at hx
        obtain rfl := Option.some.inj hx
        exact ⟨o, k + 1, mergeTile_lower tile o k, by omega, by omega⟩
      · exact ⟨x, j, by rw [mergeTile_other hxo hxu]; exact hx, h1, h2⟩

/-! ### Tilings that cannot be coarsened -/

/-- No two buddies of an order below the greatest are both blocks. -/
def Maximal (M : Nat) (tile : Nat → Option Nat) : Prop :=
  ∀ o k, k < M → tile o = some k → tile (buddyOf k o) ≠ some k

/-- In a tiling that cannot be coarsened, the aligned block of the next order
around a block sticks out of the interval. -/
theorem parent_sticks_out (h : Tiling M n tile) (hmax : Maximal M tile) : ∀ (k : Nat) {o p : Nat},
    k < M → tile o = some k → 2 ^ (k + 1) ∣ p → p ≤ o → o < p + 2 ^ (k + 1) →
    n < p + 2 ^ (k + 1) := by
  intro k
  induction k using Nat.strong_induction_on with
  | _ k ih =>
      intro o p hk ho hp h1 h2
      by_contra hfit
      have hpos : 0 < 2 ^ k := Nat.two_pow_pos k
      have hdouble : 2 ^ (k + 1) = 2 ^ k + 2 ^ k := by ring
      -- the buddy lies in the same aligned block of the next order, so in the interval
      have hin : buddyOf k o < n ∧ buddyOf k o + 2 ^ k ≤ n := by
        rcases buddyOf_cases (h.aligned ho) with ⟨hd, he⟩ | ⟨hd, he⟩
        · have hpo : p = o := eq_of_mem_aligned hp hd h1 h2
          omega
        · have hle : p ≤ buddyOf k o := by
            by_contra hlt
            have := eq_of_mem_aligned hd hp (by omega) (by omega)
            omega
          omega
      obtain ⟨j, hjk, hj⟩ := h.buddy_starts ho hin.1
      rcases Nat.lt_or_ge j k with hlt | hge
      · -- a smaller block there has its own larger block inside the buddy
        have hsub : 2 ^ (j + 1) ≤ 2 ^ k := Nat.pow_le_pow_right (by decide) hlt
        have := ih j hlt (Nat.lt_trans hlt hk) hj
          (dvd_trans (pow_dvd_pow 2 hlt) (dvd_buddyOf k o)) (Nat.le_refl _)
          (Nat.lt_add_of_pos_right (Nat.two_pow_pos _))
        omega
      · obtain rfl : j = k := by omega
        exact hmax o j hk ho hj

/-- A block of a tiling that cannot be coarsened is a block of every other. -/
theorem maximal_sub {tile' : Nat → Option Nat} (h : Tiling M n tile) (hmax : Maximal M tile)
    (h' : Tiling M n tile') (hmax' : Maximal M tile') {o k : Nat} (ho : tile o = some k) :
    tile' o = some k := by
  obtain ⟨o', k', ho', h1, h2⟩ := h'.cover (h.lt ho)
  have hin := h.inside ho
  have hin' := h'.inside ho'
  rcases Nat.lt_trichotomy k k' with hlt | rfl | hgt
  · -- the larger block of the other tiling contains the parent of this one
    exfalso
    have hpar : 2 ^ (k + 1) ∣ o / 2 ^ (k + 1) * 2 ^ (k + 1) := Dvd.intro_left _ rfl
    have hpos : 0 < 2 ^ (k + 1) := Nat.two_pow_pos _
    have hle : o / 2 ^ (k + 1) * 2 ^ (k + 1) ≤ o := Nat.div_mul_le_self _ _
    have hlt' : o < o / 2 ^ (k + 1) * 2 ^ (k + 1) + 2 ^ (k + 1) := Nat.lt_div_mul_add hpos
    have hout := h.parent_sticks_out hmax k (Nat.lt_of_lt_of_le hlt (h'.order_le ho')) ho hpar
      hle hlt'
    have := end_le_of_mem_aligned (h'.aligned ho') hpar hlt (by omega)
    omega
  · obtain rfl := eq_of_mem_aligned (h'.aligned ho') (h.aligned ho) h1 h2
    exact ho'
  · -- a smaller block of the other tiling has its parent inside this one
    exfalso
    have hal : 2 ^ (k' + 1) ∣ o := dvd_trans (pow_dvd_pow 2 hgt) (h.aligned ho)
    obtain rfl := eq_of_mem_aligned (h'.aligned ho')
      (dvd_trans (pow_dvd_pow 2 (Nat.le_succ k')) hal) h1 h2
    have hsub : 2 ^ (k' + 1) ≤ 2 ^ k := Nat.pow_le_pow_right (by decide) hgt
    have hout := h'.parent_sticks_out hmax' k' (Nat.lt_of_lt_of_le hgt (h.order_le ho)) ho' hal
      (Nat.le_refl _) (Nat.lt_add_of_pos_right (Nat.two_pow_pos _))
    omega

/-- **There is one tiling that cannot be coarsened.** -/
theorem maximal_unique {tile' : Nat → Option Nat} (h : Tiling M n tile) (hmax : Maximal M tile)
    (h' : Tiling M n tile') (hmax' : Maximal M tile') : tile = tile' := by
  funext o
  cases ho : tile o with
  | some k => exact (h.maximal_sub hmax h' hmax' ho).symm
  | none =>
      cases ho' : tile' o with
      | none => rfl
      | some k =>
          have := h'.maximal_sub hmax' h hmax ho'
          rw [ho] at this
          exact nomatch this

/-! ### Runs of blocks that cannot be joined -/

/-- If all blocks that meet an aligned run of length `2 ^ k` have orders below
`k`, one of the least order among them has for buddy another one of them. -/
theorem buddies_in_run {k p : Nat} (h : Tiling M n tile) (hp : 2 ^ k ∣ p) (hin : p + 2 ^ k ≤ n)
    (hsmall : ∀ {o j}, tile o = some j → o < p + 2 ^ k → p < o + 2 ^ j → j < k) :
    ∃ o j, j < k ∧ tile o = some j ∧ tile (buddyOf j o) = some j ∧ p ≤ o ∧ o < p + 2 ^ k ∧
      p ≤ buddyOf j o ∧ buddyOf j o < p + 2 ^ k := by
  -- some block starts in the run: the one that covers its first point
  have hsome : ∃ j o, tile o = some j ∧ p ≤ o ∧ o < p + 2 ^ k := by
    have hpos : 0 < 2 ^ k := Nat.two_pow_pos k
    obtain ⟨o, j, ho, h1, h2⟩ := h.cover (Nat.lt_of_lt_of_le (Nat.lt_add_of_pos_right hpos) hin)
    have hjk := hsmall ho (by omega) h2
    have hop := eq_of_mem_aligned (h.aligned ho)
      (dvd_trans (pow_dvd_pow 2 (Nat.le_of_lt hjk)) hp) h1 h2
    exact ⟨j, o, ho, by omega, by omega⟩
  classical
  obtain ⟨o, ho, h1, h2⟩ := Nat.find_spec hsome
  have hleast : ∀ j, (∃ o, tile o = some j ∧ p ≤ o ∧ o < p + 2 ^ k) → Nat.find hsome ≤ j :=
    fun j hj => Nat.find_min' hsome hj
  generalize Nat.find hsome = j at ho hleast
  have hpos : 0 < 2 ^ j := Nat.two_pow_pos j
  have hjk : j < k := hsmall ho h2 (by omega)
  -- the parent of the block lies in the run, and so does the other half of it
  have hbuddy : p ≤ buddyOf j o ∧ buddyOf j o < p + 2 ^ k := by
    have hdouble : 2 ^ (j + 1) = 2 ^ j + 2 ^ j := by ring
    have hparent : 2 ^ (j + 1) ∣ p := dvd_trans (pow_dvd_pow 2 hjk) hp
    rcases buddyOf_cases (h.aligned ho) with ⟨hd, he⟩ | ⟨hd, he⟩
    · have hend := end_le_of_mem_aligned hp hd hjk h2
      omega
    · refine ⟨?_, by omega⟩
      by_contra hlt
      have := eq_of_mem_aligned hd hparent (by omega) (by omega)
      omega
  obtain ⟨j', hj', htile⟩ := h.buddy_starts ho (Nat.lt_of_lt_of_le hbuddy.2 hin)
  have hle := hleast j' ⟨_, htile, hbuddy⟩
  obtain rfl : j' = j := by omega
  exact ⟨o, j', hjk, ho, htile, h1, h2, hbuddy⟩

/-- **A free run is in a free block.**  Where no two buddies are both free, an
aligned run of length `2 ^ k` that meets free blocks only leaves one of an order
not below `k`. -/
theorem exists_large {k p : Nat} {Free : Nat → Prop} (h : Tiling M n tile) (hp : 2 ^ k ∣ p)
    (hin : p + 2 ^ k ≤ n)
    (hjoined : ∀ {o j}, j < k → tile o = some j → tile (buddyOf j o) = some j → Free o →
      ¬ Free (buddyOf j o))
    (hfree : ∀ {o j}, tile o = some j → o < p + 2 ^ k → p < o + 2 ^ j → Free o) :
    ∃ o j, k ≤ j ∧ tile o = some j ∧ Free o := by
  by_contra hno
  have hsmall : ∀ {o j}, tile o = some j → o < p + 2 ^ k → p < o + 2 ^ j → j < k := by
    intro o j ho h1 h2
    by_contra hge
    exact hno ⟨o, j, Nat.le_of_not_lt hge, ho, hfree ho h1 h2⟩
  obtain ⟨o, j, hjk, ho, hb, h1, h2, h3, h4⟩ := h.buddies_in_run hp hin hsmall
  have hpos : 0 < 2 ^ j := Nat.two_pow_pos j
  exact hjoined hjk ho hb (hfree ho h2 (by omega)) (hfree hb h4 (by omega))

end Tiling

end KmOS
