/-
# `KmOS.Buddy.Partition` — every run keeps the zone partitioned

`Partitioned start size h free` says, in addresses, what the allocator is for:
the blocks on the free lists and the blocks clients hold cut `[start, start +
size)` into aligned pieces; headers, links and counters describe exactly these
pieces; and whatever `find_buddy` reads when one of the held blocks is freed is
the header of one of them.

`buddy_partition` proves it after every sequence of allocations, frees of
blocks that are out, and stores into their payloads.
-/
import KmOS.Buddy.Operations
import Mathlib.Data.List.Perm.Subperm

namespace KmOS

open BuddyZone

/-! ## The statement -/

/-- A block of the zone: free and on the list of its order, or held by a
client.  A block is its address and its order. -/
def IsBlock (h : BuddyHeap) (free : Nat → List Nat) (b : Nat × Nat) : Prop :=
  b.1 ∈ free b.2 ∨ b ∈ h.live

/-- The zone is partitioned into blocks, and the allocator's data says so. -/
structure Partitioned (start size : Nat) (h : BuddyHeap) (free : Nat → List Nat) : Prop where
  /-- Every address of the zone lies in exactly one block. -/
  partition : ∀ a, start ≤ a → a < start + size →
    ∃! b, IsBlock h free b ∧ b.1 ≤ a ∧ a < b.1 + blockSize b.2
  inside : ∀ b, IsBlock h free b → b.2 ≤ maxOrder ∧ start ≤ b.1 ∧
    b.1 + blockSize b.2 ≤ start + size
  aligned : ∀ b, IsBlock h free b → blockSize b.2 ∣ b.1 - start
  /-- No block is both free and held. -/
  exclusive : ∀ b, b.1 ∈ free b.2 → b ∉ h.live
  header : ∀ b, IsBlock h free b → HeaderIs (h.zone.header b.1) b.2 (if b ∈ h.live then 1 else 0)
  links : ∀ k, Dll 0 h.zone.next h.zone.prev 0 (h.zone.freeLists k) (free k)
  listed_once : ∀ k, (free k).Nodup
  free_blocks : ∀ k, h.zone.freeBlocks k = (free k).length
  held_once : h.live.Nodup
  allocated_blocks : h.zone.allocatedBlocks = h.live.length
  /-- Two held blocks do not overlap. -/
  disjoint : ∀ b ∈ h.live, ∀ c ∈ h.live, b ≠ c →
    b.1 + blockSize b.2 ≤ c.1 ∨ c.1 + blockSize c.2 ≤ b.1
  /-- `find_buddy` reads true headers of other blocks. -/
  buddy_reads : ∀ b ∈ h.live, ∀ r ∈ h.zone.freeReads (b.1 + sizeofBuddyBlock),
    ∃ c, IsBlock h free c ∧ c ≠ b ∧ r.addr = c.1 ∧ r.magic = buddyMagic ∧ r.order = c.2 ∧
      r.allocated = if c ∈ h.live then 1 else 0

/-! ## From the invariant to the statement -/

section
variable {h : BuddyHeap} {n : Nat} {tile : Nat → Option Nat} {free : Nat → List Nat}

theorem isBlock_iff (hi : ZoneInv h.zone h.live ∅ n tile free) {b : Nat × Nat} :
    IsBlock h free b ↔ ∃ o, b.1 = zonePage h.zone.memoryStart o ∧ tile o = some b.2 := by
  constructor
  · rintro (hf | hl)
    · obtain ⟨o, he, ho, _⟩ := hi.mem_free.mp hf
      exact ⟨o, he, ho⟩
    · obtain ⟨o, he, ho, _⟩ := hi.live_block b hl
      exact ⟨o, he, ho⟩
  · rintro ⟨o, he, ho⟩
    by_cases hl : b ∈ h.live
    · exact Or.inr hl
    · exact Or.inl (hi.mem_free.mpr ⟨o, he, ho, Set.notMem_empty o, hl⟩)

/-- Blocks are told apart by their addresses. -/
theorem block_ext (hi : ZoneInv h.zone h.live ∅ n tile free) {b c : Nat × Nat}
    (hb : IsBlock h free b) (hc : IsBlock h free c) (he : b.1 = c.1) : b = c := by
  obtain ⟨o, hbo, hto⟩ := (isBlock_iff hi).mp hb
  obtain ⟨o', hco, hto'⟩ := (isBlock_iff hi).mp hc
  obtain rfl := zonePage_inj.mp (hbo.symm.trans (he.trans hco))
  exact Prod.ext he (Option.some.inj (hto.symm.trans hto'))

/-- A list of distinct pages of the zone is no longer than the zone. -/
theorem length_le_of_pages (start : Nat) {n : Nat} {l : List Nat} (hnd : l.Nodup)
    (hl : ∀ a ∈ l, ∃ o, a = zonePage start o ∧ o < n) : l.length ≤ n := by
  have hsub : l ⊆ (List.range n).map (zonePage start) := by
    intro a ha
    obtain ⟨o, rfl, ho⟩ := hl a ha
    exact List.mem_map_of_mem (List.mem_range.mpr ho)
  have := (hnd.subperm hsub).length_le
  simpa using this

theorem pages_lt_wordSize (hi : ZoneInv h.zone h.live ∅ n tile free) : n < wordSize := by
  have := hi.room
  unfold minBlockSize wordSize at *
  omega

theorem free_length_lt (hi : ZoneInv h.zone h.live ∅ n tile free) (k : Nat) :
    (free k).length < wordSize := by
  refine Nat.lt_of_le_of_lt (length_le_of_pages h.zone.memoryStart (hi.free_nodup k) ?_)
    (pages_lt_wordSize hi)
  intro a ha
  obtain ⟨o, he, ho, _⟩ := hi.mem_free.mp ha
  exact ⟨o, he, hi.tiling.lt ho⟩

theorem live_length_lt (hi : ZoneInv h.zone h.live ∅ n tile free) : h.live.length < wordSize := by
  have hnd : (h.live.map Prod.fst).Nodup := by
    refine hi.live_nodup.map_on (fun b hb c hc he => ?_)
    exact block_ext hi (Or.inr hb) (Or.inr hc) he
  rw [← List.length_map Prod.fst]
  refine Nat.lt_of_le_of_lt (length_le_of_pages h.zone.memoryStart hnd ?_)
    (pages_lt_wordSize hi)
  intro a ha
  obtain ⟨b, hb, rfl⟩ := List.mem_map.mp ha
  obtain ⟨o, he, ho, _⟩ := hi.live_block b hb
  exact ⟨o, he, hi.tiling.lt ho⟩

/-- The page of an address. -/
theorem mem_block_iff {start a o k : Nat} (ha : start ≤ a) :
    (zonePage start o ≤ a ∧ a < zonePage start o + blockSize k) ↔
      (o ≤ (a - start) / minBlockSize ∧ (a - start) / minBlockSize < o + 2 ^ k) := by
  rw [← zonePage_add]
  unfold zonePage minBlockSize
  omega

theorem partitioned_of_inv (hi : ZoneInv h.zone h.live ∅ n tile free)
    (hn : h.zone.memorySize = minBlockSize * n) :
    Partitioned h.zone.memoryStart h.zone.memorySize h free := by
  have hblock : ∀ {o k}, tile o = some k → IsBlock h free (zonePage h.zone.memoryStart o, k) :=
    fun ho => (isBlock_iff hi).mpr ⟨_, rfl, ho⟩
  refine
    { partition := ?_
      inside := ?_
      aligned := ?_
      exclusive := ?_
      header := ?_
      links := hi.links
      listed_once := hi.free_nodup
      free_blocks := fun k => (hi.count k).trans (Nat.mod_eq_of_lt (free_length_lt hi k))
      held_once := hi.live_nodup
      allocated_blocks := hi.total.trans (Nat.mod_eq_of_lt (live_length_lt hi))
      disjoint := ?_
      buddy_reads := ?_ }
  · intro a h1 h2
    have hp : (a - h.zone.memoryStart) / minBlockSize < n := by
      rw [hn] at h2
      unfold minBlockSize at *
      omega
    obtain ⟨o, k, ho, hop, hpo⟩ := hi.tiling.cover hp
    refine ⟨(zonePage h.zone.memoryStart o, k),
      ⟨hblock ho, (mem_block_iff h1).mpr ⟨hop, hpo⟩⟩, ?_⟩
    rintro b ⟨hb, hba⟩
    obtain ⟨o', he, ho'⟩ := (isBlock_iff hi).mp hb
    rw [he] at hba
    obtain ⟨h3, h4⟩ := (mem_block_iff h1).mp hba
    obtain rfl := hi.tiling.eq_of_mem ho ho' hop hpo h3 h4
    exact Prod.ext he (Option.some.inj (ho'.symm.trans ho))
  · intro b hb
    obtain ⟨o, he, ho⟩ := (isBlock_iff hi).mp hb
    have hin := hi.tiling.inside ho
    refine ⟨hi.tiling.order_le ho, ?_, ?_⟩
    · rw [he]
      exact Nat.le_add_right _ _
    · rw [he, ← zonePage_add, hn]
      exact Nat.add_le_add_left (Nat.mul_le_mul_left _ hin) _
  · intro b hb
    obtain ⟨o, he, ho⟩ := (isBlock_iff hi).mp hb
    obtain ⟨q, hq⟩ := hi.tiling.aligned ho
    refine ⟨q, ?_⟩
    rw [he]
    unfold zonePage blockSize
    rw [Nat.add_sub_cancel_left, hq]
    ring
  · intro b hf
    obtain ⟨_, _, _, _, hl⟩ := hi.mem_free.mp hf
    exact hl
  · intro b hb
    obtain ⟨o, he, ho⟩ := (isBlock_iff hi).mp hb
    have hd := hi.headerIs ho (Set.notMem_empty o)
    rw [← he] at hd
    exact hd
  · intro b hb c hc hne
    obtain ⟨o, he, ho, _⟩ := hi.live_block b hb
    obtain ⟨o', he', ho', _⟩ := hi.live_block c hc
    rw [he, he', ← zonePage_add, ← zonePage_add]
    rcases Nat.lt_trichotomy o o' with hlt | heq | hgt
    · have := hi.tiling.disjoint ho ho' hlt
      exact Or.inl (Nat.add_le_add_left (Nat.mul_le_mul_left _ this) _)
    · exact absurd (block_ext hi (Or.inr hb) (Or.inr hc) (by rw [he, he', heq])) hne
    · have := hi.tiling.disjoint ho' ho hgt
      exact Or.inr (Nat.add_le_add_left (Nat.mul_le_mul_left _ this) _)
  · intro b hb r hr
    obtain ⟨o, he, ho, _⟩ := hi.live_block b hb
    have hbe : b = (zonePage h.zone.memoryStart o, b.2) := Prod.ext he rfl
    rw [he] at hr
    obtain ⟨x, j, hx, hxo, ha, hm, hj, hf⟩ := (free_inv hi hn (hbe ▸ hb)).2 r hr
    have hcb : (zonePage h.zone.memoryStart x, j) ≠ b := by
      rw [hbe]
      exact fun e => hxo (zonePage_inj.mp (congrArg Prod.fst e))
    refine ⟨(zonePage h.zone.memoryStart x, j), hblock hx, hcb, ha, hm, hj, ?_⟩
    rw [hf, ha, ← hbe]
    simp only [hi.live_nodup.mem_erase_iff, hcb, ne_eq, not_false_eq_true, true_and]

/-! ## One call -/

/-- The invariant of a run: some tiling of the zone is what the allocator
describes. -/
def HeapInv (start size : Nat) (h : BuddyHeap) : Prop :=
  h.zone.memoryStart = start ∧ h.zone.memorySize = size ∧ size % minBlockSize = 0 ∧
    ∃ tile free, ZoneInv h.zone h.live ∅ (size / minBlockSize) tile free

theorem HeapInv.size_eq {start size : Nat} (hi : HeapInv start size h) :
    h.zone.memorySize = minBlockSize * (size / minBlockSize) := by
  rw [hi.2.1, Nat.mul_div_cancel' (Nat.dvd_of_mod_eq_zero hi.2.2.1)]

/-- What a call does to the blocks: the zone is tiled again, and no buddies are
left apart that were not before. -/
def Retiled (h h' : BuddyHeap) (n : Nat) (free : Nat → List Nat) : Prop :=
  ∃ tile' free', ZoneInv h'.zone h'.live ∅ n tile' free' ∧ SameZone h.zone h'.zone ∧
    (h.zone.memoryStart + h.zone.memorySize < wordSize → Coalesced h.zone.memoryStart free →
      Coalesced h.zone.memoryStart free')

theorem Retiled.same {mem : Memory}
    (hi : ZoneInv { h.zone with mem := mem } h.live ∅ n tile free) :
    Retiled h { h with zone := { h.zone with mem := mem } } n free :=
  ⟨tile, free, hi, ⟨rfl, rfl⟩, fun _ hc => hc⟩

/-- An allocation, successful or not. -/
theorem retiled_allocate (hi : ZoneInv h.zone h.live ∅ n tile free) (order : Nat) :
    Retiled h (BuddyHeap.grant (h.zone.allocOrder order) h.live order) n free := by
  rcases allocOrder_inv hi order with he | ⟨z', o, tile', free', he, hi', hsame, hco⟩
  · rw [he]
    exact ⟨tile, free, hi, SameZone.refl _, fun _ hc => hc⟩
  · rw [he]
    refine ⟨tile', free', ?_, hsame, fun _ hc => hco hc⟩
    show ZoneInv z' ((zonePage h.zone.memoryStart o + sizeofBuddyBlock - sizeofBuddyBlock,
      order) :: h.live) ∅ _ tile' free'
    rw [Nat.add_sub_cancel]
    exact hi'

/-- Freeing a held block. -/
theorem retiled_release (hi : ZoneInv h.zone h.live ∅ n tile free)
    (hn : h.zone.memorySize = minBlockSize * n) {b : Nat × Nat} (hb : b ∈ h.live) :
    Retiled h
      { zone := h.zone.free (b.1 + sizeofBuddyBlock)
        live := h.live.filter (fun c => c.1 + sizeofBuddyBlock ≠ b.1 + sizeofBuddyBlock) }
      n free := by
  obtain ⟨o, he, _⟩ := hi.live_block b hb
  have hbe : b = (zonePage h.zone.memoryStart o, b.2) := Prod.ext he rfl
  obtain ⟨⟨tile', free', hi', hsame, hco⟩, _⟩ := free_inv hi hn (hbe ▸ hb)
  -- among held blocks, having another pointer is being another block
  have hfilter : h.live.filter (fun c => c.1 + sizeofBuddyBlock ≠ b.1 + sizeofBuddyBlock) =
      h.live.erase b := by
    rw [hi.live_nodup.erase_eq_filter]
    refine List.filter_congr (fun c hc => ?_)
    by_cases hcb : c = b
    · simp [hcb]
    · have : c.1 ≠ b.1 := fun e => hcb (block_ext hi (Or.inr hc) (Or.inr hb) e)
      simp [hcb, this]
  rw [hfilter]
  rw [← hbe, ← he] at hi'
  rw [← he] at hsame
  exact ⟨tile', free', hi', hsame, hco⟩

/-- **Every admitted call** tiles the zone again. -/
theorem retiled_step {h' : BuddyHeap} {c : BuddyCall} (hi : ZoneInv h.zone h.live ∅ n tile free)
    (hn : h.zone.memorySize = minBlockSize * n) (hok : h.Allowed c) (hs : h.step c = some h') :
    Retiled h h' n free := by
  cases c with
  | alloc request =>
      obtain rfl := Option.some.inj hs
      by_cases h0 : request = 0
      · have : h.zone.alloc request = (h.zone, none) := if_pos h0
        rw [this]
        exact ⟨tile, free, hi, SameZone.refl _, fun _ hc => hc⟩
      · have : h.zone.alloc request = h.zone.allocOrder (getOrder request) := if_neg h0
        rw [this]
        exact retiled_allocate hi _
  | allocOrder order =>
      obtain rfl := Option.some.inj hs
      exact retiled_allocate hi order
  | free ptr =>
      obtain rfl := Option.some.inj hs
      obtain ⟨b, hb, rfl⟩ := hok
      exact retiled_release hi hn hb
  | write a byte =>
      obtain rfl := Option.some.inj hs
      obtain ⟨b, hb, h1, h2⟩ := hok
      exact Retiled.same (write_inv hi hb h1 h2 byte)

theorem HeapInv.step {start size : Nat} {h' : BuddyHeap} {c : BuddyCall}
    (hi : HeapInv start size h) (hok : h.Allowed c) (hs : h.step c = some h') :
    HeapInv start size h' := by
  have hn := hi.size_eq
  obtain ⟨hst, hz, hm, tile, free, hinv⟩ := hi
  obtain ⟨tile', free', hinv', hsame, _⟩ := retiled_step hinv hn hok hs
  exact ⟨hsame.memoryStart.trans hst, hsame.memorySize.trans hz, hm, tile', free', hinv'⟩

theorem HeapInv.partitioned {start size : Nat} (hi : HeapInv start size h) :
    ∃ free, Partitioned start size h free := by
  have hn := hi.size_eq
  obtain ⟨hs, hz, _, tile, free, hinv⟩ := hi
  have := partitioned_of_inv hinv hn
  rw [hs, hz] at this
  exact ⟨free, this⟩

/-- The invariant in every state a run reaches. -/
theorem heapInv_of_reaches (mem : Memory) {start size : Nat} (h0 : start ≠ 0)
    (hm : size % minBlockSize = 0) (hroom : start + size ≤ wordSize)
    (hr : Reaches BuddyHeap.step BuddyHeap.Allowed (BuddyHeap.start mem start size) h) :
    HeapInv start size h := by
  refine Reaches.invariant ?_ (fun u c u' hi hok hs => hi.step hok hs) hr
  obtain ⟨tile, free, hinv, hst, hsz, _⟩ := init_inv mem h0 hm hroom
  exact ⟨hst, hsz, hm, tile, free, hinv⟩

end

/-! ## Every run -/

/-- **The zone stays partitioned**, whatever clients allocate, free and write.
The zone is any region of memory that does not start at null and is a whole
number of pages. -/
theorem buddy_partition (mem : Memory) {start size : Nat} {h : BuddyHeap} (h0 : start ≠ 0)
    (hm : size % minBlockSize = 0) (hroom : start + size ≤ wordSize)
    (hr : Reaches BuddyHeap.step BuddyHeap.Allowed (BuddyHeap.start mem start size) h) :
    ∃ free, Partitioned start size h free :=
  (heapInv_of_reaches mem h0 hm hroom hr).partitioned

/-- The kernel's zone after two allocations, a store and a free. -/
theorem buddy_partition_kernel :
    ∃ h, Reaches BuddyHeap.step BuddyHeap.Allowed
        (BuddyHeap.start (fun _ => 0xAA) 0x1000000 0x1000000) h ∧
      decide (h.live = [(0x1801000, 0)] ∧ h.zone.freeBlocks 0 = 1) = true ∧
      ∃ free, Partitioned 0x1000000 0x1000000 h free := by
  obtain ⟨h, hr, hp⟩ := Reaches.of_checked_script BuddyHeap.step BuddyHeap.Allowed
    (BuddyHeap.start (fun _ => 0xAA) 0x1000000 0x1000000)
    (fun h => decide (h.live = [(0x1801000, 0)] ∧ h.zone.freeBlocks 0 = 1))
    [.alloc 4096, .allocOrder 0, .write 0x1801020 7, .free (0x1800000 + 20)] (by decide +kernel)
  exact ⟨h, hr, hp, buddy_partition _ (by decide) (by decide) (by decide) hr⟩

end KmOS
