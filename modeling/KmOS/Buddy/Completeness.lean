/-
# `KmOS.Buddy.Completeness` — null means that there is no room

`alloc_order` looks at the heads of the free lists only.  That is enough: since
free buddies are joined (`Coalesced`), an aligned run of pages that no client
holds lies in one free block (`Tiling.exists_large`), so a list of its order or
of a greater one is not empty.
-/
import KmOS.Buddy.Recovery

namespace KmOS

open BuddyZone

/-! ## Statement -/

/-- The `i`-th run of `2 ^ k` pages from `memory_start` on lies in the zone and
meets no allocated block. -/
structure FreeRun (start size : Nat) (live : List (Nat × Nat)) (k i : Nat) : Prop where
  inside : start + (i + 1) * blockSize k ≤ start + size
  apart : ∀ b ∈ live, start + (i + 1) * blockSize k ≤ b.1 ∨
    b.1 + blockSize b.2 ≤ start + i * blockSize k

/-! ## The search -/

/-- The search goes past the last list when every list is empty. -/
theorem findFree_past (z : BuddyZone) : ∀ (fuel c : Nat), maxOrder < c + fuel →
    (maxOrder < z.findFree fuel c ↔ ∀ j, c ≤ j → j ≤ maxOrder → z.freeLists j = 0)
  | 0, c, h => by
      refine iff_of_true (by unfold findFree; omega) (fun j h1 h2 => ?_)
      omega
  | fuel + 1, c, h => by
      unfold findFree
      split
      · next hc =>
          rw [findFree_past z fuel (c + 1) (by omega)]
          constructor
          · intro hrest j h1 h2
            rcases Nat.eq_or_lt_of_le h1 with rfl | hlt
            · exact hc.2
            · exact hrest j hlt h2
          · exact fun hall j h1 h2 => hall j (Nat.le_of_succ_le h1) h2
      · next hc =>
          constructor
          · intro hlt j h1 h2
            omega
          · intro hall
            by_contra hle
            exact hc ⟨by omega, hall c (Nat.le_refl c) (by omega)⟩

/-- `alloc_order` returns null when the lists of its order and above are empty. -/
theorem allocOrder_null_iff (z : BuddyZone) {k : Nat} (hk : k ≤ maxOrder) :
    (z.allocOrder k).2 = none ↔ ∀ j, k ≤ j → j ≤ maxOrder → z.freeLists j = 0 := by
  rw [← findFree_past z (maxOrder + 1) k (by omega)]
  unfold allocOrder
  rw [if_neg (Nat.not_lt.mpr hk)]
  dsimp only
  split
  · next hc => exact iff_of_true rfl hc
  · next hc => exact iff_of_false (Option.some_ne_none _) hc

/-! ## Runs and blocks -/

section
variable {h : BuddyHeap} {start n k i : Nat} {tile : Nat → Option Nat} {free : Nat → List Nat}

theorem run_start (start k i : Nat) : start + i * blockSize k = zonePage start (i * 2 ^ k) := by
  unfold zonePage blockSize
  ring

/-- A run of free pages, in pages. -/
theorem freeRun_iff (hinv : ZoneInv h.zone h.live ∅ n tile free)
    (hst : h.zone.memoryStart = start) :
    FreeRun start (minBlockSize * n) h.live k i ↔
      i * 2 ^ k + 2 ^ k ≤ n ∧ ∀ o j, tile o = some j → o < i * 2 ^ k + 2 ^ k →
        i * 2 ^ k < o + 2 ^ j → zonePage start o ∈ free j := by
  have hend : start + (i + 1) * blockSize k = zonePage start (i * 2 ^ k + 2 ^ k) := by
    rw [run_start, Nat.succ_mul]
  have hle : ∀ x y, zonePage start x ≤ zonePage start y ↔ x ≤ y := by
    intro x y
    unfold zonePage minBlockSize
    omega
  have hblock : ∀ b ∈ h.live, ∃ o, b.1 = zonePage start o ∧ tile o = some b.2 ∧
      b.1 + blockSize b.2 = zonePage start (o + 2 ^ b.2) := by
    intro b hb
    obtain ⟨o, he, ho, _⟩ := hinv.live_block b hb
    rw [hst] at he
    exact ⟨o, he, ho, by rw [he, zonePage_add]⟩
  constructor
  · rintro ⟨hin, hapart⟩
    rw [hend] at hin hapart
    refine ⟨(hle _ n).mp hin, fun o j ho h1 h2 => ?_⟩
    rw [← hst]
    refine hinv.mem_free.mpr ⟨o, rfl, ho, Set.notMem_empty o, fun hl => ?_⟩
    have hx := hapart _ hl
    dsimp only at hx
    rw [hst, run_start, ← zonePage_add, hle, hle] at hx
    omega
  · rintro ⟨hin, hfree⟩
    refine ⟨by rw [hend]; exact (hle _ n).mpr hin, fun b hb => ?_⟩
    obtain ⟨o, he, ho, hbe⟩ := hblock b hb
    rw [hend, hbe, run_start, he, hle, hle]
    by_contra hmeet
    have hmem := hfree o b.2 ho (by omega) (by omega)
    rw [← he] at hmem
    obtain ⟨_, _, _, _, hl⟩ := hinv.mem_free.mp hmem
    exact hl hb

/-- **A run that is free is served, and only then.** -/
theorem RecoveryInv.null_iff {size : Nat} (hm : size % minBlockSize = 0)
    (hi : RecoveryInv start size h) (hk : k ≤ maxOrder) :
    (h.zone.allocOrder k).2 = none ↔ ¬ ∃ i, FreeRun start size h.live k i := by
  obtain ⟨hst, hz, tile, free, hinv, hco⟩ := hi
  have hn : size = minBlockSize * (size / minBlockSize) :=
    (Nat.mul_div_cancel' (Nat.dvd_of_mod_eq_zero hm)).symm
  rw [allocOrder_null_iff h.zone hk]
  generalize size / minBlockSize = n at hn hinv
  subst hn
  constructor
  · rintro hempty ⟨i, hrun⟩
    obtain ⟨hin, hfree⟩ := (freeRun_iff hinv hst).mp hrun
    have hlarge : ∃ o j, k ≤ j ∧ tile o = some j ∧ ∃ j', tile o = some j' ∧
        zonePage start o ∈ free j' := by
      refine hinv.tiling.exists_large (Dvd.intro_left i rfl) hin ?_
        (fun ho h1 h2 => ⟨_, ho, hfree _ _ ho h1 h2⟩)
      rintro o j hj ho hb ⟨j₁, ho₁, hmem₁⟩ ⟨j₂, hb₂, hmem₂⟩
      obtain rfl := Option.some.inj (ho.symm.trans ho₁)
      obtain rfl := Option.some.inj (hb.symm.trans hb₂)
      exact hco j (Nat.lt_of_lt_of_le hj hk) o (hinv.tiling.aligned ho) hmem₁ hmem₂
    obtain ⟨o, j, hkj, ho, j', ho', hmem⟩ := hlarge
    obtain rfl := Option.some.inj (ho.symm.trans ho')
    rw [(hinv.links j).head_eq_null_iff.mp (hempty j hkj (hinv.tiling.order_le ho))] at hmem
    exact List.not_mem_nil hmem
  · intro hno j h1 h2
    by_contra hhead
    obtain ⟨o, he, ho, _⟩ := hinv.mem_free.mp (hinv.head_mem_free hhead)
    -- the first run inside the block at the head of the list
    obtain ⟨i, rfl⟩ : 2 ^ k ∣ o := dvd_trans (pow_dvd_pow 2 h1) (hinv.tiling.aligned ho)
    have hsize : 2 ^ k ≤ 2 ^ j := Nat.pow_le_pow_right (by decide) h1
    have hin := hinv.tiling.inside ho
    rw [Nat.mul_comm] at ho hin he
    refine hno ⟨i, (freeRun_iff hinv hst).mpr ⟨by omega, fun o' j' ho' h3 h4 => ?_⟩⟩
    have hpos : 0 < 2 ^ k := Nat.two_pow_pos k
    have heq : o' = i * 2 ^ k := by
      rcases Nat.lt_trichotomy o' (i * 2 ^ k) with hlt | heq | hgt
      · have := hinv.tiling.disjoint ho' ho hlt
        omega
      · exact heq
      · have := hinv.tiling.disjoint ho ho' hgt
        omega
    subst heq
    obtain rfl := Option.some.inj (ho'.symm.trans ho)
    rw [← hst, ← he]
    exact hinv.head_mem_free hhead

end

/-! ## Every run -/

/-- **The buddy allocator is complete**: in every state a run reaches
`alloc_order` returns null exactly when no aligned run of the size asked for is
free. -/
theorem buddy_complete (mem : Memory) {start size : Nat} {h : BuddyHeap} (h0 : start ≠ 0)
    (hm : size % minBlockSize = 0) (hend : start + size < wordSize)
    (hr : Reaches BuddyHeap.step BuddyHeap.Allowed (BuddyHeap.start mem start size) h) {k : Nat}
    (hk : k ≤ maxOrder) :
    (h.zone.allocOrder k).2 = none ↔ ¬ ∃ i, FreeRun start size h.live k i := by
  have hrun : RecoveryInv start size h :=
    hr.invariant (recoveryInv_start mem h0 hm hend) (fun u c u' hi hok hs => hi.step hm hend hok hs)
  exact hrun.null_iff hm hk

/-- The kernel's zone with one page and one of its two greatest blocks out: no
run of `2 ^ 11` pages is left. -/
theorem buddy_complete_kernel :
    ∃ h, Reaches BuddyHeap.step BuddyHeap.Allowed
        (BuddyHeap.start (fun _ => 0xAA) 0x1000000 0x1000000) h ∧
      decide ((h.zone.allocOrder 11).2 = none) = true ∧
      ((h.zone.allocOrder 11).2 = none ↔
        ¬ ∃ i, FreeRun 0x1000000 0x1000000 h.live 11 i) := by
  obtain ⟨h, hr, hp⟩ := Reaches.of_checked_script BuddyHeap.step BuddyHeap.Allowed
    (BuddyHeap.start (fun _ => 0xAA) 0x1000000 0x1000000)
    (fun h => decide ((h.zone.allocOrder 11).2 = none))
    [.allocOrder 0, .allocOrder 11] (by decide +kernel)
  exact ⟨h, hr, hp, buddy_complete _ (by decide) (by decide) (by decide) hr (by decide)⟩

end KmOS
