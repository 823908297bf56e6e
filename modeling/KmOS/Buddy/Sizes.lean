/-
# `KmOS.Buddy.Sizes` — whether the bytes asked for fit in the block granted

`alloc(size)` picks an order from `size` alone and returns the address twenty
bytes into the block, past its header.  `get_order` does not count these twenty
bytes, and it stops at `MAX_ORDER` however large the request is.  So the bytes
asked for fit in the block in most cases and not in all: `Fits` is the exact
set of sizes for which they do, and the sizes the SLOB and SLUB allocators ask
for, whole powers of two of a page, are never among them.
-/
import KmOS.Buddy.Partition

namespace KmOS

open BuddyZone

/-- The sizes for which the block is large enough: at most the payload of the
largest block, and not within the header's length of a block size. -/
def Fits (size : Nat) : Prop :=
  size + sizeofBuddyBlock ≤ blockSize maxOrder ∧
    ∀ k ≤ maxOrder, ¬ (blockSize k < size + sizeofBuddyBlock ∧ size ≤ blockSize k)

/-! ## The order picked for a size -/

theorem blockSize_succ (k : Nat) : blockSize (k + 1) = blockSize k * 2 := by
  unfold blockSize
  ring

theorem blockSize_le_of_le {j k : Nat} (h : j ≤ k) : blockSize j ≤ blockSize k :=
  Nat.mul_le_mul_right _ (Nat.pow_le_pow_right (by decide) h)

theorem lt_of_blockSize_lt {j k : Nat} (h : blockSize j < blockSize k) : j < k := by
  by_contra hle
  exact absurd (blockSize_le_of_le (Nat.le_of_not_lt hle)) (Nat.not_le.mpr h)

/-- `get_order` stops at the first block size that is not below `size`, or at
`MAX_ORDER`. -/
theorem getOrderLoop_spec {size : Nat} : ∀ (fuel j : Nat), j + fuel = maxOrder →
    (∀ i, i < j → blockSize i < size) →
    getOrderLoop size fuel j (blockSize j) ≤ maxOrder ∧
      (∀ i, i < getOrderLoop size fuel j (blockSize j) → blockSize i < size) ∧
      (getOrderLoop size fuel j (blockSize j) = maxOrder ∨
        size ≤ blockSize (getOrderLoop size fuel j (blockSize j)))
  | 0, j, hj, hlow => ⟨by show j ≤ maxOrder; omega, hlow, Or.inl (by show j = maxOrder; omega)⟩
  | fuel + 1, j, hj, hlow => by
      unfold getOrderLoop
      split
      · next hc =>
          have hle : blockSize (j + 1) ≤ blockSize maxOrder := blockSize_le_of_le (by omega)
          have hmod : blockSize j * 2 % wordSize = blockSize (j + 1) := by
            rw [← blockSize_succ]
            exact Nat.mod_eq_of_lt (Nat.lt_of_le_of_lt hle (by decide))
          rw [hmod]
          refine getOrderLoop_spec fuel (j + 1) (by omega) (fun i hi => ?_)
          rcases Nat.lt_succ_iff_lt_or_eq.mp hi with hlt | rfl
          · exact hlow i hlt
          · exact hc.1
      · next hc =>
          refine ⟨by omega, hlow, ?_⟩
          by_cases hlt : blockSize j < size
          · exact Or.inl (by omega)
          · exact Or.inr (by omega)

theorem getOrder_spec (size : Nat) :
    getOrder size ≤ maxOrder ∧ (∀ i, i < getOrder size → blockSize i < size) ∧
      (getOrder size = maxOrder ∨ size ≤ blockSize (getOrder size)) :=
  getOrderLoop_spec maxOrder 0 (by decide) (fun i hi => absurd hi (Nat.not_lt_zero i))

/-- The block of the order picked holds header and request exactly for the
sizes in `Fits`. -/
theorem fits_iff (size : Nat) : size + sizeofBuddyBlock ≤ blockSize (getOrder size) ↔ Fits size := by
  obtain ⟨hle, hlow, htop⟩ := getOrder_spec size
  constructor
  · intro hfit
    refine ⟨Nat.le_trans hfit (blockSize_le_of_le hle), ?_⟩
    rintro k _ ⟨h1, h2⟩
    -- a block size just below `size + 20` would have been passed over
    have hk := hlow k (lt_of_blockSize_lt (Nat.lt_of_lt_of_le h1 hfit))
    omega
  · rintro ⟨hmax, hgap⟩
    rcases htop with htop | htop
    · rw [htop]
      exact hmax
    · have := hgap _ hle
      omega

/-! ## What is granted -/

/-- The `size` bytes from `p` on lie in the block `b`. -/
def BytesInBlock (p size : Nat) (b : Nat × Nat) : Prop :=
  ∀ a, p ≤ a → a < p + size → b.1 ≤ a ∧ a < b.1 + blockSize b.2

theorem bytesInBlock_iff {a size k : Nat} (hs : 0 < size) :
    BytesInBlock (a + sizeofBuddyBlock) size (a, k) ↔ size + sizeofBuddyBlock ≤ blockSize k := by
  constructor
  · intro h
    have := h (a + sizeofBuddyBlock + (size - 1)) (by omega) (by omega)
    dsimp only at this
    omega
  · intro h x h1 h2
    refine ⟨?_, ?_⟩ <;> dsimp only <;> omega

/-- **The bytes granted lie in the block granted exactly when the size fits.**
In every state a run reaches, the block behind the pointer `alloc` returns is a
held block of the partition, of the order its header gives. -/
theorem alloc_bytes_in_block_iff (mem : Memory) {start size : Nat} {h : BuddyHeap}
    (h0 : start ≠ 0) (hm : size % minBlockSize = 0) (hroom : start + size ≤ wordSize)
    (hr : Reaches BuddyHeap.step BuddyHeap.Allowed (BuddyHeap.start mem start size) h)
    {request p : Nat} {z' : BuddyZone} (hq : 0 < request)
    (ha : h.zone.alloc request = (z', some p)) :
    (∃ free, Partitioned start size
        { zone := z', live := (p - sizeofBuddyBlock, z'.order (p - sizeofBuddyBlock)) :: h.live }
        free) ∧
      (BytesInBlock p request (p - sizeofBuddyBlock, z'.order (p - sizeofBuddyBlock)) ↔
        Fits request) := by
  have hi := heapInv_of_reaches mem h0 hm hroom hr
  obtain ⟨hst, hsz, _, tile, free, hinv⟩ := hi
  have halloc : h.zone.alloc request = h.zone.allocOrder (getOrder request) :=
    if_neg (Nat.ne_of_gt hq)
  rw [halloc] at ha
  rcases allocOrder_inv hinv (getOrder request) with he | ⟨z₁, o, tile', free', he, hinv', hsame, _⟩
  · rw [he] at ha
    exact nomatch (Prod.mk.inj ha).2
  · rw [he] at ha
    obtain ⟨rfl, hp⟩ := Prod.mk.inj ha
    obtain rfl := Option.some.inj hp
    obtain ⟨_, _, _, _, hd⟩ := hinv'.live_block _ List.mem_cons_self
    have hord : z₁.order (zonePage h.zone.memoryStart o) = getOrder request := hd.order
    rw [Nat.add_sub_cancel, hord]
    constructor
    · refine HeapInv.partitioned (h := ⟨z₁, _⟩) ⟨?_, ?_, hm, tile', free', hinv'⟩
      · exact hsame.memoryStart.trans hst
      · exact hsame.memorySize.trans hsz
    · rw [bytesInBlock_iff hq, fits_iff]

/-- A request of 4000 bytes fits in its page. -/
theorem alloc_bytes_in_block_small :
    Fits 4000 ∧ ∃ z' p, (BuddyHeap.start (fun _ => 0) 0x1000000 0x1000000).zone.alloc 4000 =
        (z', some p) ∧
      BytesInBlock p 4000 (p - sizeofBuddyBlock, z'.order (p - sizeofBuddyBlock)) := by
  have hfit : Fits 4000 := by
    unfold Fits
    decide
  refine ⟨hfit, ((BuddyHeap.start (fun _ => 0) 0x1000000 0x1000000).zone.alloc 4000).1,
    0x1800014, ?_, ?_⟩
  · exact Prod.ext rfl (by decide +kernel)
  · exact (alloc_bytes_in_block_iff (fun _ => 0) (by decide) (by decide) (by decide) .refl
      (by decide) (Prod.ext rfl (by decide +kernel))).2.mpr hfit

/-- A request of one page runs over the end of its block, into the header of
the free block that follows. -/
theorem alloc_page_reaches_next_header :
    ∃ z', (BuddyHeap.start (fun _ => 0) 0x1000000 0x1000000).zone.alloc 4096 =
        (z', some 0x1800014) ∧
      z'.order 0x1800000 = 0 ∧ z'.freeLists 0 = 0x1801000 ∧ 0x1801000 < 0x1800014 + 4096 ∧
      ¬ BytesInBlock 0x1800014 4096 (0x1800000, 0) := by
  refine ⟨((BuddyHeap.start (fun _ => 0) 0x1000000 0x1000000).zone.alloc 4096).1,
    Prod.ext rfl (by decide +kernel), by decide +kernel, by decide +kernel, by decide, ?_⟩
  intro hin
  exact absurd (hin 0x1801000 (by decide) (by decide)).2 (by decide)

/-- The sizes the page-based allocators ask for never fit: `SLOB_BLOCK_SIZE` is
one page, and a SLUB page is `PAGE_SIZE << order`. -/
theorem not_fits_blockSize (k : Nat) : ¬ Fits (blockSize k) := by
  rintro ⟨hmax, hgap⟩
  have hk : k ≤ maxOrder := by
    by_contra hgt
    have := blockSize_le_of_le (Nat.le_of_not_le hgt)
    unfold sizeofBuddyBlock at hmax
    omega
  exact hgap k hk ⟨Nat.lt_add_of_pos_right (by decide), Nat.le_refl _⟩

end KmOS
