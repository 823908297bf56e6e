/-
# `KmOS.Buddy.Recovery` — freed memory comes back whole

Two facts about free lists.  No two buddies of an order below `MAX_ORDER` are
ever both free: `init` lays orders that shrink, `split_block` lists an upper
half whose lower half is in hand, and `coalesce_block` stops only where the
buddy is not listed.  And there is only one way to tile a zone like that, so
once nothing is out the free blocks are the ones `init` laid.

The end of the zone must have an address: `find_buddy` compares with
`memory_start + memory_size`, which is 0 for a zone that ends at the top of
memory, and then no buddy is ever found.
-/
import KmOS.Buddy.Partition

namespace KmOS

open BuddyZone

/-! ## The statement -/

/-- `free k` is what following `next` from `free_lists[k]` visits, for every
`k`, with `prev` pointing back. -/
def Listed (z : BuddyZone) (free : Nat → List Nat) : Prop :=
  ∀ k, Dll 0 z.next z.prev 0 (z.freeLists k) (free k)

/-- No free block of an order below `MAX_ORDER` has its buddy, at the address
`find_buddy` computes, free as well. -/
def NoFreeBuddies (z : BuddyZone) (free : Nat → List Nat) : Prop :=
  ∀ k, k < maxOrder → ∀ a ∈ free k, z.buddyAddr a k ∉ free k

/-! ## Runs -/

section
variable {h : BuddyHeap} {start size n : Nat} {tile : Nat → Option Nat} {free : Nat → List Nat}

/-- The invariant of a run: a tiling whose free buddies are joined. -/
def RecoveryInv (start size : Nat) (h : BuddyHeap) : Prop :=
  h.zone.memoryStart = start ∧ h.zone.memorySize = size ∧
    ∃ tile free, ZoneInv h.zone h.live ∅ (size / minBlockSize) tile free ∧ Coalesced start free

theorem RecoveryInv.step {h' : BuddyHeap} {c : BuddyCall} (hm : size % minBlockSize = 0)
    (hend : start + size < wordSize) (hi : RecoveryInv start size h) (hok : h.Allowed c)
    (hs : h.step c = some h') : RecoveryInv start size h' := by
  obtain ⟨hst, hz, tile, free, hinv, hco⟩ := hi
  have hn : h.zone.memorySize = minBlockSize * (size / minBlockSize) := by
    rw [hz, Nat.mul_div_cancel' (Nat.dvd_of_mod_eq_zero hm)]
  obtain ⟨tile', free', hinv', hsame, hco'⟩ := retiled_step hinv hn hok hs
  rw [hst, hz] at hco'
  exact ⟨hsame.memoryStart.trans hst, hsame.memorySize.trans hz, tile', free', hinv',
    hco' hend hco⟩

theorem recoveryInv_start (mem : Memory) (h0 : start ≠ 0) (hm : size % minBlockSize = 0)
    (hend : start + size < wordSize) :
    RecoveryInv start size (BuddyHeap.start mem start size) := by
  obtain ⟨tile, free, hinv, hst, hsz, hco⟩ := init_inv mem h0 hm (Nat.le_of_lt hend)
  exact ⟨hst, hsz, tile, free, hinv, hco⟩

/-! ## From the invariant to the statement -/

theorem noFreeBuddies_of_coalesced (hinv : ZoneInv h.zone h.live ∅ n tile free)
    (hend : h.zone.memoryStart + minBlockSize * n < wordSize)
    (hco : Coalesced h.zone.memoryStart free) : NoFreeBuddies h.zone free := by
  intro k hk a ha hb
  obtain ⟨o, rfl, ho, _⟩ := hinv.mem_free.mp ha
  have hle := buddyOf_le hinv.tiling ho
  have hlt : zonePage h.zone.memoryStart (buddyOf k o) < wordSize :=
    Nat.lt_of_le_of_lt (Nat.add_le_add_left (Nat.mul_le_mul_left _ hle) _) hend
  rw [buddyAddr_mod hinv ho, Nat.mod_eq_of_lt hlt] at hb
  exact hco k hk o (hinv.tiling.aligned ho) ha hb

/-- With nothing out, the blocks are the listed ones. -/
theorem mem_free_of_idle (hinv : ZoneInv h.zone [] ∅ n tile free) {k o : Nat} :
    zonePage h.zone.memoryStart o ∈ free k ↔ tile o = some k := by
  rw [hinv.mem_free]
  constructor
  · rintro ⟨x, hx, hxk, _, _⟩
    obtain rfl := zonePage_inj.mp hx
    exact hxk
  · intro ho
    exact ⟨o, rfl, ho, Set.notMem_empty o, List.not_mem_nil⟩

/-- With nothing out and free buddies joined, the tiling cannot be coarsened. -/
theorem maximal_of_idle (hinv : ZoneInv h.zone [] ∅ n tile free)
    (hco : Coalesced h.zone.memoryStart free) : Tiling.Maximal maxOrder tile := by
  intro o k hk ho hb
  exact hco k hk o (hinv.tiling.aligned ho) ((mem_free_of_idle hinv).mpr ho)
    ((mem_free_of_idle hinv).mpr hb)

/-- Two idle zones at one place list the same blocks. -/
theorem idle_unique {h' : BuddyHeap} {tile' : Nat → Option Nat} {free' : Nat → List Nat}
    (hs : h.zone.memoryStart = h'.zone.memoryStart)
    (hinv : ZoneInv h.zone [] ∅ n tile free) (hco : Coalesced h.zone.memoryStart free)
    (hinv' : ZoneInv h'.zone [] ∅ n tile' free') (hco' : Coalesced h'.zone.memoryStart free')
    (k a : Nat) : a ∈ free k ↔ a ∈ free' k := by
  have heq := hinv.tiling.maximal_unique (maximal_of_idle hinv hco) hinv'.tiling
    (maximal_of_idle hinv' hco')
  rw [hinv.mem_free, hinv'.mem_free, heq, hs]

end

/-! ## Every run -/

/-- **Free buddies are always joined, and freeing everything undoes
everything.**  In every state a run reaches no two buddies below the greatest
order are both free; and if no block is out there, whatever the order of the
frees, the free blocks are those `init` laid, each at its order, and
`allocated_blocks` is 0. -/
theorem buddy_memory_recovered (mem : Memory) {start size : Nat} {h : BuddyHeap} (h0 : start ≠ 0)
    (hm : size % minBlockSize = 0) (hend : start + size < wordSize)
    (hr : Reaches BuddyHeap.step BuddyHeap.Allowed (BuddyHeap.start mem start size) h) :
    ∃ free₀ free, Listed (BuddyHeap.start mem start size).zone free₀ ∧ Listed h.zone free ∧
      NoFreeBuddies h.zone free ∧
      (h.live = [] → (∀ k a, a ∈ free k ↔ a ∈ free₀ k) ∧ h.zone.allocatedBlocks = 0) := by
  have hstart := recoveryInv_start mem h0 hm hend
  have hrun : RecoveryInv start size h :=
    hr.invariant hstart (fun u c u' hi hok hs => hi.step hm hend hok hs)
  obtain ⟨hst₀, _, tile₀, free₀, hinv₀, hco₀⟩ := hstart
  obtain ⟨hst, _, tile, free, hinv, hco⟩ := hrun
  refine ⟨free₀, free, hinv₀.links, hinv.links, ?_, ?_⟩
  · refine noFreeBuddies_of_coalesced hinv ?_ (by rw [hst]; exact hco)
    rw [hst, Nat.mul_div_cancel' (Nat.dvd_of_mod_eq_zero hm)]
    exact hend
  · intro hidle
    have htotal := hinv.total
    rw [hidle] at hinv htotal
    refine ⟨fun k a => ?_, htotal⟩
    rw [← hst] at hco
    rw [← hst₀] at hco₀
    exact idle_unique (hst.trans hst₀.symm) hinv hco hinv₀ hco₀ k a

/-- The kernel's zone after two allocations freed in the order they were
made. -/
theorem buddy_memory_recovered_kernel :
    ∃ h, Reaches BuddyHeap.step BuddyHeap.Allowed
        (BuddyHeap.start (fun _ => 0xAA) 0x1000000 0x1000000) h ∧
      decide (h.live = [] ∧ h.zone.freeBlocks 11 = 2) = true ∧
      ∃ free₀ free, Listed (BuddyHeap.start (fun _ => 0xAA) 0x1000000 0x1000000).zone free₀ ∧
        Listed h.zone free ∧ NoFreeBuddies h.zone free ∧
        (h.live = [] → (∀ k a, a ∈ free k ↔ a ∈ free₀ k) ∧ h.zone.allocatedBlocks = 0) := by
  obtain ⟨h, hr, hp⟩ := Reaches.of_checked_script BuddyHeap.step BuddyHeap.Allowed
    (BuddyHeap.start (fun _ => 0xAA) 0x1000000 0x1000000)
    (fun h => decide (h.live = [] ∧ h.zone.freeBlocks 11 = 2))
    [.alloc 4096, .allocOrder 0, .free (0x1800000 + 20), .free (0x1801000 + 20)]
    (by decide +kernel)
  exact ⟨h, hr, hp, buddy_memory_recovered _ (by decide) (by decide) (by decide) hr⟩

end KmOS
