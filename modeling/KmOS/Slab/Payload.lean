/-
# `KmOS.Slab.Payload` — what a free reads of an object

`kmem_cache_free` looks at the magic word of the object and at the records, and
writes the object's first words (`kmemCacheFree_withMem`).  As in
`KmOS.Slub.Payload` the magic word is in bytes the owner may write.

## What is proved

The owner's bytes make a difference to `cache_free` of SLUB exactly if they
change whether the magic word is intact.  For `kmem_cache_free` it must also be
an object of the first size cache, for others are not taken back anyhow
(`payload_free_iff`).

## What is not

That they never make one: an owner that writes its eight bytes keeps its object
for good (`payload_decides_free`).
-/
import KmOS.Slab.Kmem
import KmOS.Slub.Payload

namespace KmOS

namespace SlabAllocator

variable {z z₁ : SlabAllocator} {c o : Nat} {f : SlabAllocator → SlabAllocator}

/-- The allocator with other contents of memory. -/
def withMem (z : SlabAllocator) (m : Memory) : SlabAllocator := { z with mem := m }

theorem Blind.withMem (hf : Blind f) (z : SlabAllocator) (m : Memory) :
    f (z.withMem m) = (f z).withMem m := by
  have hself : f z = (f z).recast z.cacheChain z.slabs z.mem := hf z z.cacheChain z.slabs z.mem
  have hother : f (z.withMem m) = (f z).recast z.cacheChain z.slabs m := hf z z.cacheChain z.slabs m
  rw [hother, hself]
  rfl

/-- **A free does the same from every memory.** -/
theorem cacheFree_withMem (m : Memory) (hz : z.cacheFree c o = some z₁) :
    ∃ m₁, (z.withMem m).cacheFree c o = some (z₁.withMem m₁) ∧
      Memory.SameWrites z.mem m z₁.mem m₁ := by
  have hfind : (z.withMem m).findSlab c o = z.findSlab c o :=
    findSlab_recast z c o z.cacheChain z.slabs m
  rw [cacheFree_eq] at hz ⊢
  rw [hfind]
  split at hz
  · next hnull =>
      obtain rfl := Option.some.inj hz
      rw [if_pos hnull]
      exact ⟨m, rfl, .refl _ _⟩
  · next hnull =>
      rw [if_neg hnull]
      obtain ⟨slab, hslab, rfl⟩ := Option.map_eq_some_iff.mp hz
      rw [hslab, Option.map_some]
      by_cases h0 : slab = 0
      · rw [if_pos h0, if_pos h0]
        exact ⟨m, rfl, .refl _ _⟩
      · rw [if_neg h0, if_neg h0]
        have hmem : (z.giveObj c slab o).mem = putObj z.mem o (z.slab slab).freelist :=
          (blind_relist c slab _).mem (z.afterGive c slab o)
        refine ⟨putObj m o (z.slab slab).freelist,
          congrArg some ((blind_relist c slab _).withMem (z.afterGive c slab o) _), ?_⟩
        rw [hmem]
        exact (Memory.SameWrites.store32 z.mem m (o + 0) _).trans (.store32 _ _ (o + 4) slabMagic)

end SlabAllocator

namespace KmemAllocator

open SlabAllocator

variable {k k₁ : KmemAllocator} {cs : List Nat} {c o x : Nat} {live all s : List (Nat × Nat)}
  {L : Nat → SlabList → List Nat} {fl : Nat → List Nat} {m : Memory}

def withMem (k : KmemAllocator) (m : Memory) : KmemAllocator := { k with slab := k.slab.withMem m }

/-- `kmem_cache_free` of `o` returns and does the same on the memory `m`: the
records are the same afterwards, and so is what was written. -/
def FreesAlike (k : KmemAllocator) (o : Nat) (m : Memory) : Prop :=
  ∃ k₁ m₁, k.kmemCacheFree o = some k₁ ∧ (k.withMem m).kmemCacheFree o = some (k₁.withMem m₁) ∧
    Memory.SameWrites k.slab.mem m k₁.slab.mem m₁

/-- **With the magic word intact** a free does the same from every memory. -/
theorem kmemCacheFree_withMem (hmark : k.slab.mem.mark o = slabMagic) (hm : m.mark o = slabMagic)
    (hk : k.kmemCacheFree o = some k₁) :
    ∃ m₁, (k.withMem m).kmemCacheFree o = some (k₁.withMem m₁) ∧
      Memory.SameWrites k.slab.mem m k₁.slab.mem m₁ := by
  by_cases h0 : o = 0 ∨ k.firstSizeCache = 0
  · have hnone : ∀ w : KmemAllocator, w.firstSizeCache = k.firstSizeCache →
        w.slab.mem.mark o = slabMagic → w.kmemCacheFree o = some w := by
      intro w hw hmark
      unfold kmemCacheFree
      dsimp only
      rw [hw, if_neg (not_not.mpr hmark)]
      rcases h0 with h0 | h0
      · rw [if_pos h0]
      · rw [if_neg (not_not.mpr h0), ite_self]
    rw [hnone k rfl hmark] at hk
    obtain rfl := Option.some.inj hk
    exact ⟨m, hnone (k.withMem m) rfl hm, .refl _ _⟩
  · obtain ⟨ho, hfirst⟩ := not_or.mp h0
    rw [kmemCacheFree_eq ho hmark hfirst] at hk
    obtain ⟨z, hz, rfl⟩ := Option.map_eq_some_iff.mp hk
    obtain ⟨m₁, hz₁, hw⟩ := cacheFree_withMem m hz
    have hfree : (k.withMem m).slab.cacheFree k.firstSizeCache o = some (z.withMem m₁) := hz₁
    refine ⟨m₁, (kmemCacheFree_eq (k := k.withMem m) ho hm hfirst).trans ?_, hw⟩
    rw [show (k.withMem m).firstSizeCache = k.firstSizeCache from rfl, hfree]
    rfl

/-- A free is in vain without the magic word, and of an object of another cache
than the first. -/
theorem KmemInv.free_in_vain (h : KmemInv k live x s cs all L fl) (ho : (c, o) ∈ live)
    (hno : ¬ (k.slab.mem.mark o = slabMagic ∧ c = k.firstSizeCache)) :
    k.kmemCacheFree o = some k := by
  by_cases hmark : k.slab.mem.mark o = slabMagic
  · exact h.free_other ho hmark (fun hc => hno ⟨hmark, hc⟩)
  · unfold kmemCacheFree
    rw [if_neg (h.obj_ne_zero ho), if_pos hmark]

/-- **A free of an object of the first size cache changes a record**, the number of
active objects. -/
theorem KmemInv.free_ne (h : KmemInv k live x s cs all L fl) (ho : (c, o) ∈ live)
    (hmark : k.slab.mem.mark o = slabMagic) (hc : c = k.firstSizeCache)
    (hk : k.kmemCacheFree o = some k₁) (m : Memory) : k₁.withMem m ≠ k.withMem m := by
  obtain ⟨k', hk', ⟨k'', hk'', hactive, _⟩, _⟩ := h.free_first ho hmark hc
  rw [hk''] at hk
  obtain rfl := Option.some.inj hk
  intro e
  have hcache : k''.slab.cache c = k.slab.cache c := congrArg (fun w => w.slab.cache c) e
  rw [hcache] at hactive
  exact absurd hactive (Nat.succ_ne_self _)

end KmemAllocator

namespace KmemHeap

open SlabAllocator KmemAllocator

variable {h : KmemHeap} {c o : Nat}

/-- Writing a pattern over an object is what clients may do. -/
theorem Good.fill (hg : h.Good) (ho : (c, o) ∈ h.live) (p : Memory) {n : Nat}
    (hn : n ≤ (h.kmem.slab.cache c).objSize) :
    Good { h with kmem := h.kmem.withMem (h.kmem.slab.mem.fill o n p) } := by
  induction n with
  | zero =>
      rw [Memory.fill_zero]
      exact hg
  | succ n ih =>
      rw [Memory.fill_succ]
      have hok : Allowed { h with kmem := h.kmem.withMem (h.kmem.slab.mem.fill o n p) }
          (.write (o + n) (p n)) :=
        Or.inl ⟨(c, o), ho, Nat.le_add_right o n, Nat.add_lt_add_left hn o⟩
      obtain ⟨h', hs, hg'⟩ := (ih (Nat.le_of_succ_le hn)).step hok
      exact Option.some.inj hs ▸ hg'

/-- **Whether the owner's bytes matter to `kmem_cache_free`.** -/
theorem Good.freesAlike_iff (hg : h.Good) (ho : (c, o) ∈ h.live) (p : Memory) :
    h.kmem.FreesAlike o (h.kmem.slab.mem.fill o (h.kmem.slab.cache c).objSize p) ↔
      (p.mark 0 = slabMagic ↔ h.kmem.slab.mem.mark o = slabMagic) ∨ c ≠ h.kmem.firstSizeCache := by
  have hfill := hg.fill ho p (Nat.le_refl _)
  obtain ⟨x, s, cs, all, L, fl, hi⟩ := hg
  have hsize : 8 ≤ (h.kmem.slab.cache c).objSize :=
    (hi.inv.objects.cache c (hi.first ho).2.2).objSize
  rw [← Memory.mark_fill hsize h.kmem.slab.mem o p]
  generalize h.kmem.slab.mem.fill o (h.kmem.slab.cache c).objSize p = m at hfill
  obtain ⟨x', s', cs', all', L', fl', hi'⟩ := hfill
  by_cases hc : c = h.kmem.firstSizeCache
  · by_cases hz : h.kmem.slab.mem.mark o = slabMagic <;> by_cases hm : m.mark o = slabMagic
    · obtain ⟨k₁, hk₁, _⟩ := hi.free_first ho hz hc
      obtain ⟨m₁, hm₁, hw⟩ := kmemCacheFree_withMem hz hm hk₁
      exact ⟨fun _ => Or.inl ⟨fun _ => hz, fun _ => hm⟩, fun _ => ⟨k₁, m₁, hk₁, hm₁, hw⟩⟩
    · have hnone := hi'.free_in_vain ho (fun hok => hm hok.1)
      refine ⟨fun hf => False.elim ?_, fun hor => absurd ((hor.resolve_right (not_not.mpr hc)).mpr hz) hm⟩
      obtain ⟨k₁, m₁, hk₁, hm₁, _⟩ := hf
      have he : h.kmem.withMem m = k₁.withMem m₁ := Option.some.inj (hnone.symm.trans hm₁)
      exact hi.free_ne ho hz hc hk₁ m (congrArg (fun k => k.withMem m) he).symm
    · have hnone := hi.free_in_vain ho (fun hok => hz hok.1)
      refine ⟨fun hf => False.elim ?_, fun hor => absurd ((hor.resolve_right (not_not.mpr hc)).mp hm) hz⟩
      obtain ⟨k₁, m₁, hk₁, hm₁, _⟩ := hf
      obtain rfl : h.kmem = k₁ := Option.some.inj (hnone.symm.trans hk₁)
      exact hi'.free_ne ho hm hc hm₁ m rfl
    · exact ⟨fun _ => Or.inl ⟨fun e => absurd e hm, fun e => absurd e hz⟩, fun _ =>
        ⟨h.kmem, m, hi.free_in_vain ho (fun hok => hz hok.1), hi'.free_in_vain ho (fun hok => hm hok.1),
          .refl _ _⟩⟩
  · -- nothing is done with an object of another cache
    exact ⟨fun _ => Or.inr hc, fun _ =>
      ⟨h.kmem, m, hi.free_in_vain ho (fun hok => hc hok.2), hi'.free_in_vain ho (fun hok => hc hok.2),
        .refl _ _⟩⟩

end KmemHeap

/-! ## Both allocators -/

/-- **When a free does not depend on what the owner wrote.**  In every state
reached, for every live object and every pattern `p` over its bytes: for
`cache_free` of SLUB exactly if the magic word of the pattern (bytes 4 to 7) and
that of the object are both intact or both not; for `kmem_cache_free` in this
case, too, and for objects of another cache than the first. -/
theorem payload_free_iff (mem p : Memory) :
    (∀ descs, SlubHeap.DescsOk descs → ∀ h : SlubHeap,
      Reaches SlubHeap.step SlubHeap.Allowed (SlubHeap.start mem descs) h →
      ∀ c o, (c, o) ∈ h.live →
        (h.slub.FreesAlike c o (h.slub.mem.fill o (h.slub.cache c).size p) ↔
          (p.mark 0 = slubMagic ↔ h.slub.mem.mark o = slubMagic))) ∧
      ∀ descs, KmemHeap.DescsOk descs → ∀ h : KmemHeap,
        Reaches KmemHeap.step KmemHeap.Allowed (KmemHeap.start mem descs) h →
        ∀ c o, (c, o) ∈ h.live →
          (h.kmem.FreesAlike o (h.kmem.slab.mem.fill o (h.kmem.slab.cache c).objSize p) ↔
            (p.mark 0 = slabMagic ↔ h.kmem.slab.mem.mark o = slabMagic) ∨
              c ≠ h.kmem.firstSizeCache) := by
  refine ⟨fun descs hd h hr c o ho => ?_, fun descs hd h hr c o ho => ?_⟩
  · exact SlubHeap.freesAlike_iff mem hd hr ho p
  · exact (KmemHeap.good_of_reaches mem hd hr).freesAlike_iff ho p

/-- SLUB has handed out one object. -/
theorem one_slub_object :
    ∃ h, Reaches SlubHeap.step SlubHeap.Allowed (SlubHeap.start (fun _ => 7) []) h ∧
      (128, 147456) ∈ h.live ∧ h.slub.mem.mark 147456 = slubMagic := by
  obtain ⟨h, hr, hh⟩ := Reaches.of_checked_script SlubHeap.step SlubHeap.Allowed
    (SlubHeap.start (fun _ => 7) [])
    (fun h => decide ((128, 147456) ∈ h.live) && decide (h.slub.mem.mark 147456 = slubMagic))
    [.create 16384 16 0 (some 128), .cacheAlloc 128 [some ⟨131072, 2000⟩]] (by decide +kernel)
  rw [Bool.and_eq_true, decide_eq_true_eq, decide_eq_true_eq] at hh
  exact ⟨h, hr, hh⟩

/-- `kmem_cache_alloc` has handed out one object, of the first size cache. -/
theorem one_kmem_object :
    ∃ h, Reaches KmemHeap.step KmemHeap.Allowed (KmemHeap.start (fun _ => 7) KmemHeap.twelve) h ∧
      (64, 69624) ∈ h.live ∧ h.kmem.slab.mem.mark 69624 = slabMagic ∧ 64 = h.kmem.firstSizeCache := by
  obtain ⟨h, hr, hh⟩ := Reaches.of_checked_script KmemHeap.step KmemHeap.Allowed
    (KmemHeap.start (fun _ => 7) KmemHeap.twelve)
    (fun h => decide ((64, 69624) ∈ h.live) && (decide (h.kmem.slab.mem.mark 69624 = slabMagic) &&
      decide (64 = h.kmem.firstSizeCache)))
    [.alloc 8 (some ⟨4160, 65536⟩)] (by decide +kernel)
  simp only [Bool.and_eq_true, decide_eq_true_eq] at hh
  exact ⟨h, hr, hh⟩

/-- What an owner writes that leaves the magic word alone. -/
def polite (magic : Nat) : Memory := Memory.store32 (fun _ => 9) 4 magic

theorem payload_free_polite :
    (∃ h, Reaches SlubHeap.step SlubHeap.Allowed (SlubHeap.start (fun _ => 7) []) h ∧
      (128, 147456) ∈ h.live ∧ h.slub.FreesAlike 128 147456
        (h.slub.mem.fill 147456 (h.slub.cache 128).size (polite slubMagic))) ∧
      ∃ h, Reaches KmemHeap.step KmemHeap.Allowed (KmemHeap.start (fun _ => 7) KmemHeap.twelve) h ∧
        (64, 69624) ∈ h.live ∧ h.kmem.FreesAlike 69624
          (h.kmem.slab.mem.fill 69624 (h.kmem.slab.cache 64).objSize (polite slabMagic)) := by
  obtain ⟨h, hr, ho, hmark⟩ := one_slub_object
  obtain ⟨h', hr', ho', hmark', _⟩ := one_kmem_object
  refine ⟨⟨h, hr, ho, ?_⟩, h', hr', ho', ?_⟩
  · exact ((payload_free_iff _ (polite slubMagic)).1 _ SlubHeap.descsOk_nil h hr 128 147456 ho).mpr
      ⟨fun _ => hmark, fun _ => Memory.load32_store32 _ 4 slubMagic⟩
  · exact ((payload_free_iff _ (polite slabMagic)).2 _ KmemHeap.descsOk_twelve h' hr' 64 69624 ho').mpr
      (Or.inl ⟨fun _ => hmark', fun _ => Memory.load32_store32 _ 4 slabMagic⟩)

/-- An owner that clears its object has its free refused; without the write it is
not. -/
theorem payload_decides_free :
    (∃ h, Reaches SlubHeap.step SlubHeap.Allowed (SlubHeap.start (fun _ => 7) []) h ∧
      (128, 147456) ∈ h.live ∧ h.slub.mem.mark 147456 = slubMagic ∧ ¬ h.slub.FreesAlike 128 147456
        (h.slub.mem.fill 147456 (h.slub.cache 128).size fun _ => 0)) ∧
      ∃ h, Reaches KmemHeap.step KmemHeap.Allowed (KmemHeap.start (fun _ => 7) KmemHeap.twelve) h ∧
        (64, 69624) ∈ h.live ∧ h.kmem.slab.mem.mark 69624 = slabMagic ∧ ¬ h.kmem.FreesAlike 69624
          (h.kmem.slab.mem.fill 69624 (h.kmem.slab.cache 64).objSize fun _ => 0) := by
  obtain ⟨h, hr, ho, hmark⟩ := one_slub_object
  obtain ⟨h', hr', ho', hmark', hfirst⟩ := one_kmem_object
  have hclear : Memory.mark (fun _ => 0) 0 = 0 := rfl
  refine ⟨⟨h, hr, ho, hmark, fun hf => ?_⟩, h', hr', ho', hmark', fun hf => ?_⟩
  · have hmagic := ((SlubHeap.freesAlike_iff _ SlubHeap.descsOk_nil hr ho _).mp hf).mpr hmark
    exact absurd (hclear.symm.trans hmagic) (by decide)
  · have hor := ((KmemHeap.good_of_reaches _ KmemHeap.descsOk_twelve hr').freesAlike_iff ho' _).mp hf
    have hmagic := (hor.resolve_right (not_not.mpr hfirst)).mpr hmark'
    exact absurd (hclear.symm.trans hmagic) (by decide)

end KmOS
