/-
# `KmOS.Slab.Kmem` — which sizes the size caches serve

A slab of any cache has `SLAB_MAX_SIZE` bytes at most, so a slab of the caches
for 8192 and 16384 bytes has no object at all: these caches are `Dead`, and
`kmem_cache_alloc` gets nothing from them.  `kmem_cache_free` tries one cache
only, and in the slabs of that one it finds only its own objects.

`KmemInv` is `SlabInv` of the caches up to 4096 bytes, seen by themselves.  Its
live objects `all` are those clients hold and those they gave back in vain.
-/
import KmOS.Lib.Keyed
import KmOS.Slab.SizeCaches
import KmOS.Slab.View

namespace KmOS

namespace KmemAllocator

open SlabAllocator

variable {k k' : KmemAllocator} {z z' : SlabAllocator} {cs : List Nat} {c d o x : Nat}
  {live all s : List (Nat × Nat)} {L : Nat → SlabList → List Nat} {fl : Nat → List Nat}
  {size : UInt32} {buddy : Option SlabMem}

/-- A cache that has no object a slab, and a slab at most on its partial list;
that slab is none of `s`. -/
structure Dead (z : SlabAllocator) (s : List (Nat × Nat)) (c : Nat) : Prop where
  objects : (z.cache c).numObjsPerSlab = 0
  empty : (z.cache c).head .slabsEmpty = 0
  part : (z.cache c).head .slabsPartial = 0 ∨
    (z.cache c).head .slabsPartial ∈ z.slabs.map Prod.snd ∧
      (z.cache c).head .slabsPartial ∉ s.map Prod.snd ∧
      (z.slab ((z.cache c).head .slabsPartial)).freelist = 0

/-- A size a slab has room for. -/
def Fits (p : Nat × UInt32) : Prop := p.2.toNat ≤ slabMaxSize

instance (p : Nat × UInt32) : Decidable (Fits p) := inferInstanceAs (Decidable (_ ≤ _))

/-- **The invariant of the size caches.** -/
structure KmemInv (k : KmemAllocator) (live : List (Nat × Nat)) (x : Nat) (s : List (Nat × Nat))
    (cs : List Nat) (all : List (Nat × Nat)) (L : Nat → SlabList → List Nat)
    (fl : Nat → List Nat) : Prop where
  inv : SlabInv (k.slab.seen x s) cs all L fl
  slabs : ∀ p ∈ s, p ∈ k.slab.slabs
  fits : ∀ p ∈ sizeCacheSizes, Fits p → k.sizeCaches p.1 ≠ 0 → k.sizeCaches p.1 ∈ cs ∧
    SameSizes (newCache 0 p.2 cacheAlign 0) (k.slab.cache (k.sizeCaches p.1))
  dead : ∀ p ∈ sizeCacheSizes, ¬ Fits p → k.sizeCaches p.1 ≠ 0 → k.sizeCaches p.1 ∉ cs ∧
    Dead k.slab s (k.sizeCaches p.1)
  owner : ∀ l ∈ live, l ∈ all ∧ ∃ p ∈ sizeCacheSizes, Fits p ∧ k.sizeCaches p.1 = l.1
  distinct : (live.map Prod.snd).Nodup

/-! ## The sizes -/

theorem sizes_sorted : sizeCacheSizes.Pairwise (fun p q => p.2 ≤ q.2) := by decide +kernel

theorem sizes_index : ∀ p ∈ sizeCacheSizes, ∀ q ∈ sizeCacheSizes, p.1 = q.1 → p = q := by
  decide +kernel

/-- The caches `init` makes: room for `struct slab_obj`, and objects of the size
asked for; a slab has some if and only if the size fits. -/
theorem sizes_newCache : ∀ p ∈ sizeCacheSizes,
    sizeofSlabObj ≤ roundUp p.2 cacheAlign ∧ p.2.toNat ≤ (newCache 0 p.2 cacheAlign 0).objSize ∧
      (Fits p ↔ 0 < (newCache 0 p.2 cacheAlign 0).numObjsPerSlab) := by
  decide +kernel

theorem Fits.mono {p q : Nat × UInt32} (hq : Fits q) (h : p.2 ≤ q.2) : Fits p :=
  Nat.le_trans (UInt32.le_iff_toNat_le.mp h) hq

theorem findSizeCache_spec (k : KmemAllocator) (size : UInt32) (hc : k.findSizeCache size ≠ 0) :
    ∃ p ∈ sizeCacheSizes, size ≤ p.2 ∧ k.findSizeCache size = k.sizeCaches p.1 ∧
      ∀ q ∈ sizeCacheSizes, size ≤ q.2 → p.2 ≤ q.2 := by
  unfold findSizeCache at hc ⊢
  cases hp : sizeCacheSizes.find? (fun p => decide (size ≤ p.2)) with
  | none =>
      rw [hp] at hc
      exact absurd rfl hc
  | some p =>
      obtain ⟨hle, as, bs, hlist, hbefore⟩ := List.find?_eq_some_iff_append.mp hp
      refine ⟨p, List.mem_of_find?_eq_some hp, of_decide_eq_true hle, rfl, fun q hq hsize => ?_⟩
      have hsorted := sizes_sorted
      rw [hlist] at hq hsorted
      rcases List.mem_append.mp hq with hq | hq
      · exact absurd (hbefore q hq) (by simp [hsize])
      · rcases List.mem_cons.mp hq with rfl | hq
        · exact UInt32.le_refl _
        · exact (List.pairwise_cons.mp (List.pairwise_append.mp hsorted).2.1).1 q hq

/-- The first size cache is one of those that fit, if there is any such. -/
theorem firstSizeCache_spec {p : Nat × UInt32} (hp : p ∈ sizeCacheSizes) (hfit : Fits p)
    (hc : k.sizeCaches p.1 ≠ 0) :
    ∃ q ∈ sizeCacheSizes, Fits q ∧ k.firstSizeCache = k.sizeCaches q.1 ∧ k.sizeCaches q.1 ≠ 0 := by
  unfold firstSizeCache
  cases hq : sizeCacheSizes.find? (fun p => decide (k.sizeCaches p.1 ≠ 0)) with
  | none => exact absurd (List.find?_eq_none.mp hq p hp) (by simpa using hc)
  | some q =>
      obtain ⟨hne, as, bs, hlist, hbefore⟩ := List.find?_eq_some_iff_append.mp hq
      refine ⟨q, List.mem_of_find?_eq_some hq, hfit.mono ?_, rfl, of_decide_eq_true hne⟩
      have hsorted := sizes_sorted
      rw [hlist] at hp hsorted
      rcases List.mem_append.mp hp with hp | hp
      · exact absurd (hbefore p hp) (by simp [hc])
      · rcases List.mem_cons.mp hp with rfl | hp
        · exact UInt32.le_refl _
        · exact (List.pairwise_cons.mp (List.pairwise_append.mp hsorted).2.1).1 p hp

/-! ## Caches without objects -/

/-- A change of other caches' counters and of live slabs leaves it dead. -/
theorem Dead.frame {t : List (Nat × Nat)} (h : Dead z s d) (hcache : z'.cache d = z.cache d)
    (hslabs : ∀ a ∈ z.slabs.map Prod.snd, a ∈ z'.slabs.map Prod.snd)
    (hs : ∀ a ∈ z.slabs.map Prod.snd, a ∉ s.map Prod.snd → a ∉ t.map Prod.snd ∧
      (z'.slab a).freelist = (z.slab a).freelist) : Dead z' t d where
  objects := by rw [hcache]; exact h.objects
  empty := by rw [hcache]; exact h.empty
  part := by
    rw [hcache]
    rcases h.part with hp | ⟨hin, hout, hfree⟩
    · exact Or.inl hp
    · obtain ⟨hout', hsame⟩ := hs _ hin hout
      exact Or.inr ⟨hslabs _ hin, hout', hsame.trans hfree⟩

theorem slab_pushSlab_first {a b : Nat} {dst : SlabList} (h : (z.cache c).head dst = 0) (hb : b ≠ a) :
    (z.pushSlab c dst a).slab b = z.slab b := by
  unfold pushSlab
  dsimp only
  rw [cache_modSlab, h, if_neg (not_not.mpr rfl), slab_setHead, slab_modSlab, if_neg hb]

/-- The first slab of a dead cache. -/
theorem Dead.addSlab {b : SlabMem} (h : Dead z s c) (hpart : (z.cache c).head .slabsPartial = 0)
    (hcs : c ∉ cs) (hs : ∀ p ∈ s, p ∈ z.slabs) (hb0 : b.slab ≠ 0) (hnew : b.slab ∉ z.slabs.map Prod.snd) :
    ((z.addSlab c b).slab b.slab).freelist = 0 ∧
      Agrees (z.seen x s) ((z.addSlab c b).seen x s) cs ∧
      (∀ p ∈ z.slabs, p ∈ (z.addSlab c b).slabs) ∧ ∀ d, Dead z s d → Dead (z.addSlab c b) s d := by
  have hsame := sameObjects_addSlab z c b
  have hfr := frame_addSlab z c b
  have hloop : createLoop z c b = (z.mem, 0) := by
    unfold createLoop
    rw [h.objects]
    rfl
  have hhead : ∀ l, ((z.slabCreate c (some b)).1.cache c).head l = (z.cache c).head l := by
    intro l
    unfold slabCreate
    dsimp only
    rw [cache_modCache, if_pos rfl]
  have hslab : ∀ a, a ≠ b.slab → (z.addSlab c b).slab a = z.slab a := by
    intro a ha
    refine (slab_pushSlab_first ((hhead _).trans hpart) ha).trans ?_
    exact slab_afterCreate_of_ne z c ha
  have hslabs : (z.addSlab c b).slabs = (c, b.slab) :: z.slabs := hsame.slabs
  have hold : ∀ p ∈ z.slabs, p.2 ≠ b.slab := fun p hp e =>
    hnew (List.mem_map.mpr ⟨p, hp, e⟩)
  have hfree : ((z.addSlab c b).slab b.slab).freelist = 0 := by
    rw [(hsame.body b.slab).2.2.2.1, slab_afterCreate_self, hloop]
  have hsub : ∀ p ∈ z.slabs, p ∈ (z.addSlab c b).slabs := fun p hp => by
    rw [hslabs]
    exact List.mem_cons_of_mem _ hp
  refine ⟨hfree, ⟨rfl, rfl, ?_, fun d hd => hfr.caches d (fun e => hcs (e ▸ hd)), fun p hp => ?_⟩,
    hsub, fun d hd => ?_⟩
  · exact hsame.mem.trans (congrArg Prod.fst hloop)
  · exact hslab p.2 (hold p (hs p hp))
  by_cases e : d = c
  · subst e
    have hfirst : ((z.slabCreate d (some b)).1.cache d).head .slabsPartial ≠ b.slab := by
      rw [hhead, hpart]
      exact hb0.symm
    have hpush := (pushSlab_links hfirst).2.2 d
    have hheads : ∀ l, ((z.addSlab d b).cache d).head l =
        if l = .slabsPartial then b.slab else (z.cache d).head l := by
      intro l
      unfold SlabAllocator.addSlab
      rw [cache_modCache, if_pos rfl]
      refine (hpush l).trans ?_
      simp only [true_and, hhead]
    refine ⟨hfr.sizes.2.1.trans h.objects, (hheads _).trans h.empty, Or.inr ?_⟩
    rw [hheads, if_pos rfl]
    refine ⟨?_, fun hm => ?_, hfree⟩
    · rw [hslabs]
      exact List.mem_cons_self
    · obtain ⟨p, hp, e⟩ := List.mem_map.mp hm
      exact hold p (hs p hp) e
  · refine hd.frame (hfr.caches d e) (fun a ha => ?_) (fun a ha hout => ⟨hout, ?_⟩)
    · obtain ⟨p, hp, rfl⟩ := List.mem_map.mp ha
      exact List.mem_map.mpr ⟨p, hsub p hp, rfl⟩
    · rw [hslab a (fun e => hnew (e ▸ ha))]

/-- A slab without free objects gives none. -/
theorem takeObj_nil (z : SlabAllocator) (c slab : Nat) (h : (z.slab slab).freelist = 0) :
    z.takeObj c slab = (z, 0) := by
  have hobj : z.slabAllocObj slab = (z, 0) := by
    unfold slabAllocObj
    rw [h]
    rfl
  unfold takeObj
  rw [hobj]
  split
  · rfl
  · rfl

/-- **`cache_alloc` of a dead cache** gets nothing, and leaves the caches `cs` and
their slabs `s` as they are. -/
theorem Dead.alloc (h : Dead z s c) (hc : c ≠ 0) (hcs : c ∉ cs) (hs : ∀ p ∈ s, p ∈ z.slabs)
    (hb : SlabHeap.SlabMemOk z c buddy) :
    ∃ z', z.cacheAlloc c buddy = (z', 0) ∧ Agrees (z.seen x s) (z'.seen x s) cs ∧
      (∀ p ∈ z.slabs, p ∈ z'.slabs) ∧ ∀ d, Dead z s d → Dead z' s d := by
  have hself : Agrees (z.seen x s) (z.seen x s) cs := ⟨rfl, rfl, rfl, fun _ _ => rfl, fun _ _ => rfl⟩
  rw [cacheAlloc_eq z hc]
  by_cases hpart : (z.cache c).head .slabsPartial = 0
  · cases buddy with
    | none =>
        have hpick : z.pickSlab c none = (z, 0) := by
          unfold pickSlab
          rw [hpart, h.empty]
          rfl
        rw [hpick]
        exact ⟨z, if_pos rfl, hself, fun _ hp => hp, fun _ hd => hd⟩
    | some b =>
        obtain ⟨hb0, hnew, _⟩ := hb
        obtain ⟨hfree, hrest⟩ := h.addSlab hpart hcs hs hb0 hnew (x := x)
        rw [pickSlab_create hpart h.empty hb0]
        exact ⟨z.addSlab c b, takeObj_nil _ c b.slab hfree, hrest⟩
  · have hpick : z.pickSlab c buddy = (z, (z.cache c).head .slabsPartial) := by
      unfold pickSlab
      dsimp only
      rw [if_pos hpart]
    rw [hpick]
    exact ⟨z, takeObj_nil z c _ (h.part.resolve_left hpart).2.2, hself, fun _ hp => hp, fun _ hd => hd⟩

/-! ## `kmem_cache_alloc` -/

/-- The memory the buddy allocator may give is good for a view, too. -/
theorem memOk_seen (hb : SlabHeap.SlabMemOk z c buddy) (hs : ∀ p ∈ s, p ∈ z.slabs) :
    SlabHeap.SlabMemOk (z.seen x s) c buddy := by
  cases buddy with
  | none => exact True.intro
  | some b =>
      obtain ⟨hb0, hnew, hmem, hend, hapart⟩ := hb
      refine ⟨hb0, fun hm => hnew ?_, hmem, hend, fun p hp => hapart p (hs p hp)⟩
      obtain ⟨p, hp, e⟩ := List.mem_map.mp hm
      exact List.mem_map.mpr ⟨p, hs p hp, e⟩

theorem Fits.of_size {p : Nat × UInt32} (hsize : size.toNat ≤ slabMaxSize)
    (hleast : ∀ q ∈ sizeCacheSizes, size ≤ q.2 → p.2 ≤ q.2) : Fits p :=
  Fits.mono (q := (9, 4096)) (by decide +kernel)
    (hleast (9, 4096) (by decide +kernel) (UInt32.le_iff_toNat_le.mpr hsize))

/-- What a live object of the view is. -/
theorem KmemInv.slot (h : KmemInv k live x s cs all L fl) (ho : (c, o) ∈ all) :
    ∃ a, (c, a) ∈ k.slab.slabs ∧
      o ∈ slots (k.slab.slab a).mem (k.slab.cache c).objSize (k.slab.cache c).numObjsPerSlab := by
  obtain ⟨a, ha, hin⟩ := h.inv.objects.live_slab _ ho
  exact ⟨a, h.slabs _ ha, (h.inv.objects.slab _ ha).live_slot (mem_liveOf.mpr ⟨ho, hin⟩)⟩

/-- The other size caches after a call on a cache `c` that fits. -/
theorem KmemInv.others {t : List (Nat × Nat)} (h : KmemInv k live x s cs all L fl) (hcs : c ∈ cs)
    (hfr : Frame (k.slab.seen x s) (z'.seen x (t ++ s)) c buddy)
    (ht : ∀ p ∈ t, ∃ b ∈ buddy, p = (c, b.slab)) (hslabs : z'.slabs = t ++ k.slab.slabs)
    (hnew : ∀ b ∈ buddy, b.slab ∉ k.slab.slabs.map Prod.snd) :
    (∀ p ∈ t ++ s, p ∈ z'.slabs) ∧
      (∀ p ∈ sizeCacheSizes, Fits p → k.sizeCaches p.1 ≠ 0 → k.sizeCaches p.1 ∈ cs ∧
        SameSizes (newCache 0 p.2 cacheAlign 0) (z'.cache (k.sizeCaches p.1))) ∧
      ∀ p ∈ sizeCacheSizes, ¬ Fits p → k.sizeCaches p.1 ≠ 0 → k.sizeCaches p.1 ∉ cs ∧
        Dead z' (t ++ s) (k.sizeCaches p.1) := by
  refine ⟨fun p hp => ?_, fun p hp hfit hne => ?_, fun p hp hfit hne => ?_⟩
  · rw [hslabs]
    rcases List.mem_append.mp hp with hp | hp
    · exact List.mem_append_left _ hp
    · exact List.mem_append_right t (h.slabs p hp)
  · obtain ⟨hin, hsizes⟩ := h.fits p hp hfit hne
    exact ⟨hin, hsizes.trans (hfr.sizes_all _)⟩
  · obtain ⟨hout, hdead⟩ := h.dead p hp hfit hne
    refine ⟨hout, hdead.frame (hfr.caches _ (fun e => hout (e ▸ hcs))) (fun a ha => ?_)
      (fun a ha has => ⟨fun hm => ?_, ?_⟩)⟩
    · rw [hslabs, List.map_append]
      exact List.mem_append_right _ ha
    · rw [List.map_append] at hm
      rcases List.mem_append.mp hm with hm | hm
      · obtain ⟨q, hq, rfl⟩ := List.mem_map.mp hm
        obtain ⟨b, hb, rfl⟩ := ht q hq
        exact hnew b hb ha
      · exact has hm
    · have hbody := hfr.bodies a (fun hm => has (List.mem_map.mpr ⟨(c, a), hm, rfl⟩))
        (fun b hb e => hnew b hb (e ▸ ha))
      exact hbody.2.2.2.1

/-- `kmem_cache_alloc` of a size that fits. -/
theorem KmemInv.allocFits {p : Nat × UInt32} (h : KmemInv k live x s cs all L fl)
    (hp : p ∈ sizeCacheSizes) (hfit : Fits p) (hfind : k.sizeCaches p.1 = c) (hc : c ≠ 0)
    (hb : SlabHeap.SlabMemOk k.slab c buddy) {o : Nat} (hres : k.slab.cacheAlloc c buddy = (z', o)) :
    (∃ s' all' L' fl', KmemInv { k with slab := z' } (if o = 0 then live else (c, o) :: live)
      x s' cs all' L' fl') ∧ (o = 0 → buddy = none) ∧
      (o ≠ 0 → ∃ a, (c, a) ∈ z'.slabs ∧
        o ∈ slots (z'.slab a).mem (z'.cache c).objSize (z'.cache c).numObjsPerSlab ∧
        p.2.toNat ≤ (z'.cache c).objSize) := by
  obtain ⟨hcs, hsizes⟩ := h.fits p hp hfit (hfind ▸ hc)
  rw [hfind] at hcs hsizes
  have hb0 : ∀ b ∈ buddy, b.slab ≠ 0 ∧ b.slab ∉ k.slab.slabs.map Prod.snd := by
    rintro b rfl
    exact ⟨hb.1, hb.2.1⟩
  obtain ⟨t, ht, hslabs, hseen⟩ := cacheAlloc_seen k.slab hc (fun b hm => (hb0 b hm).1)
  obtain ⟨L', fl', hinv, hnull, hfr, _⟩ := h.inv.alloc hcs (memOk_seen hb h.slabs)
  rw [hseen, hres] at hinv hnull hfr
  rw [hres] at hslabs
  dsimp only at hslabs hinv hnull hfr
  obtain ⟨hsub, hfits, hdead⟩ := h.others hcs hfr ht hslabs (fun b hm => (hb0 b hm).2)
  have hobj := (hsizes.trans hfr.sizes).1
  by_cases ho : o = 0
  · rw [if_pos ho] at hinv ⊢
    exact ⟨⟨t ++ s, all, L', fl', hinv, hsub, hfits, hdead, h.owner, h.distinct⟩, hnull,
      fun hne => absurd ho hne⟩
  rw [if_neg ho] at hinv ⊢
  have hnd := SlabHeap.live_distinct (h := ⟨z'.seen x (t ++ s), cs, (c, o) :: all⟩) hinv
  have hkmem : KmemInv { k with slab := z' } ((c, o) :: live) x (t ++ s) cs ((c, o) :: all) L' fl' := by
    refine ⟨hinv, hsub, hfits, hdead, fun l hl => ?_, List.nodup_cons.mpr ⟨fun hm => ?_, h.distinct⟩⟩
    · rcases List.mem_cons.mp hl with rfl | hl
      · exact ⟨List.mem_cons_self, p, hp, hfit, hfind⟩
      · exact ⟨List.mem_cons_of_mem _ (h.owner l hl).1, (h.owner l hl).2⟩
    · obtain ⟨l, hl, e⟩ := List.mem_map.mp hm
      exact (List.nodup_cons.mp hnd).1 (List.mem_map.mpr ⟨l, (h.owner l hl).1, e⟩)
  refine ⟨⟨_, _, _, _, hkmem⟩, hnull, fun _ => ?_⟩
  obtain ⟨a, ha, hslot⟩ := hkmem.slot List.mem_cons_self
  exact ⟨a, ha, hslot, (sizes_newCache p hp).2.1.trans (Nat.le_of_eq hobj.symm)⟩

/-- **`kmem_cache_alloc`.** -/
theorem KmemInv.alloc (h : KmemInv k live x s cs all L fl)
    (hb : SlabHeap.SlabMemOk k.slab (k.findSizeCache size) buddy) :
    (∃ s' all' L' fl', KmemInv (k.kmemCacheAlloc size buddy).1
      (if (k.kmemCacheAlloc size buddy).2 = 0 then live
        else (k.findSizeCache size, (k.kmemCacheAlloc size buddy).2) :: live) x s' cs all' L' fl') ∧
      (k.findSizeCache size = 0 ∨ size.toNat ≤ slabMaxSize → k.Serves size buddy) ∧
      (¬ size.toNat ≤ slabMaxSize → (k.kmemCacheAlloc size buddy).2 = 0) := by
  by_cases hc : k.findSizeCache size = 0
  · have hres : k.kmemCacheAlloc size buddy = (k, 0) := if_pos hc
    have hserves : k.Serves size buddy := ⟨fun _ => Or.inl hc, fun hne => absurd (by rw [hres]) hne⟩
    refine ⟨⟨s, all, L, fl, ?_⟩, fun _ => hserves, fun _ => by rw [hres]⟩
    rw [hres]
    exact h
  obtain ⟨p, hp, hsize, hfind, hleast⟩ := findSizeCache_spec k size hc
  generalize hr : k.slab.cacheAlloc (k.findSizeCache size) buddy = r
  obtain ⟨z', o⟩ := r
  have hres : k.kmemCacheAlloc size buddy = ({ k with slab := z' }, o) := by
    unfold kmemCacheAlloc
    dsimp only
    rw [if_neg hc, hr]
  rw [hres]
  by_cases hfit : Fits p
  · obtain ⟨hinv, hnull, hobj⟩ := h.allocFits hp hfit hfind.symm hc hb hr
    refine ⟨hinv, fun _ => ⟨fun e => ?_, fun hne => ?_⟩, fun hbig => ?_⟩
    · rw [hres] at e
      exact Or.inr (hnull e)
    · rw [hres] at hne ⊢
      obtain ⟨a, ha, hslot, hle⟩ := hobj hne
      exact ⟨_, a, ha, hslot, Nat.le_trans (UInt32.le_iff_toNat_le.mp hsize) hle⟩
    · exact absurd (Nat.le_trans (UInt32.le_iff_toNat_le.mp hsize) hfit) hbig
  · obtain ⟨hout, hdead⟩ := h.dead p hp hfit (hfind ▸ hc)
    rw [← hfind] at hout hdead
    obtain ⟨z₁, hz₁, hagree, hsub, hkeep⟩ := hdead.alloc (x := x) hc hout h.slabs hb
    obtain ⟨rfl, rfl⟩ := Prod.mk.inj (hr.symm.trans hz₁)
    have hcs : ∀ d ∈ cs, z'.cache d = k.slab.cache d := hagree.cache
    refine ⟨⟨s, all, L, fl, h.inv.congr hagree, fun q hq => hsub q (h.slabs q hq),
      fun q hq hqf hne => ?_, fun q hq hqf hne => ?_, h.owner, h.distinct⟩, fun hor => ?_, fun _ => rfl⟩
    · obtain ⟨hin, hsizes⟩ := h.fits q hq hqf hne
      exact ⟨hin, by rw [hcs _ hin]; exact hsizes⟩
    · obtain ⟨hqo, hqd⟩ := h.dead q hq hqf hne
      exact ⟨hqo, hkeep _ hqd⟩
    · exact absurd (Fits.of_size (hor.resolve_left hc) hleast) hfit

/-! ## `kmem_cache_free` -/

theorem KmemInv.obj_ne_zero (h : KmemInv k live x s cs all L fl) (ho : (c, o) ∈ live) : o ≠ 0 := by
  obtain ⟨a, ha, hin⟩ := h.inv.objects.live_slab _ (h.owner _ ho).1
  have hbase := (h.inv.objects.slab _ ha).base
  unfold InSlab at hin
  dsimp only at hin hbase
  omega

/-- The first size cache, where there is a live object. -/
theorem KmemInv.first (h : KmemInv k live x s cs all L fl) (ho : (c, o) ∈ live) :
    k.firstSizeCache ∈ cs ∧ k.firstSizeCache ≠ 0 ∧ c ∈ cs := by
  obtain ⟨hall, p, hp, hfit, hpc⟩ := h.owner _ ho
  obtain ⟨a, ha, _⟩ := h.inv.objects.live_slab _ hall
  have hc : c ∈ cs := h.inv.objects.owner _ ha
  have hc0 : c ≠ 0 := h.inv.chain.ne_null c hc
  obtain ⟨q, hq, hqf, hfirst, hne⟩ := firstSizeCache_spec hp hfit (fun e => hc0 (hpc.symm.trans e))
  rw [hfirst]
  exact ⟨(h.fits q hq hqf hne).1, hne, hc⟩

theorem kmemCacheFree_eq (ho : o ≠ 0) (hmark : k.slab.mem.mark o = slabMagic)
    (hfirst : k.firstSizeCache ≠ 0) :
    k.kmemCacheFree o = (k.slab.cacheFree k.firstSizeCache o).map fun z => { k with slab := z } := by
  unfold kmemCacheFree
  dsimp only
  rw [if_neg ho, if_neg (not_not.mpr hmark), if_pos hfirst]
  cases k.slab.cacheFree k.firstSizeCache o with
  | none => rfl
  | some z => rfl

/-- **An object of another cache** is not found. -/
theorem KmemInv.free_other (h : KmemInv k live x s cs all L fl) (ho : (c, o) ∈ live)
    (hmark : k.slab.mem.mark o = slabMagic) (hne : c ≠ k.firstSizeCache) :
    k.kmemCacheFree o = some k := by
  obtain ⟨hfirst, hf0, _⟩ := h.first ho
  have ho0 := h.obj_ne_zero ho
  have hfind := h.inv.find_other hfirst (Ne.symm hne) (h.owner _ ho).1
  rw [findSlab_seen] at hfind
  rw [kmemCacheFree_eq ho0 hmark hf0, cacheFree_eq, if_neg (not_or.mpr ⟨hf0, ho0⟩), hfind]
  rfl

/-- **An object of the first size cache** goes back to its slab. -/
theorem KmemInv.free_first (h : KmemInv k live x s cs all L fl) (ho : (c, o) ∈ live)
    (hmark : k.slab.mem.mark o = slabMagic) (hc : c = k.firstSizeCache) :
    ∃ k', k.kmemCacheFree o = some k' ∧ k.TakesBack c o ∧
      ∃ L' fl', KmemInv k' (live.eraseP fun p => p.2 = o) x s cs (all.erase (c, o)) L' fl' := by
  obtain ⟨_, hf0, hcs⟩ := h.first ho
  have ho0 := h.obj_ne_zero ho
  obtain ⟨v, L', fl', a, hv, hinv, ⟨ha, hin, hsame⟩, hfr, _⟩ := h.inv.free (h.owner _ ho).1
  rw [cacheFree_seen] at hv
  obtain ⟨z', hz', rfl⟩ := Option.map_eq_some_iff.mp hv
  have hslabs := slabs_cacheFree hz'
  have hfree : k.kmemCacheFree o = some { k with slab := z' } := by
    rw [kmemCacheFree_eq ho0 hmark hf0, ← hc, hz']
    rfl
  obtain ⟨hsub, hfits, hdead⟩ := h.others (t := []) hcs hfr nofun hslabs nofun
  have hu := oneSlab_afterGive h.inv.objects ha (h.owner _ ho).1 hin
  have hlist := (hinv.objects.slab (c, a) ha).list
  -- the object is the first on the free list
  have hhead : (z'.slab a).freelist = o := by
    rw [show (z'.slab a).freelist = _ from (hsame.body a).2.2.2.1, afterGive, slab_modCache,
      slabFreeObj, slab_modSlab, if_pos rfl]
  have hmem : o ∈ fl' a := by
    obtain ⟨t, ht, _⟩ := hlist.exists_cons (fun e => ho0 (hhead.symm.trans e))
    rw [ht]
    exact hhead ▸ List.mem_cons_self
  have hactive : (z'.cache c).numActiveObjs + 1 = (k.slab.cache c).numActiveObjs := by
    obtain ⟨f, hf⟩ := hsame.cache c
    have hdec : (z'.cache c).numActiveObjs = dec32 (k.slab.cache c).numActiveObjs := by
      rw [show z'.cache c = _ from hf, afterGive, cache_modCache, if_pos rfl]
      rfl
    have hfit := (h.inv.objects.counters_fit ha).1
    have hpos : 0 < (k.slab.slab a).inuse := by
      rw [show (k.slab.slab a).inuse = _ from (h.inv.objects.slab _ ha).inuse]
      exact List.length_pos_of_mem (mem_liveOf.mpr ⟨(h.owner _ ho).1, hin⟩)
    have hle : (k.slab.slab a).inuse ≤ (k.slab.cache c).numActiveObjs := hfit
    rw [hdec, dec32_eq (by omega)]
    omega
  refine ⟨_, hfree, ⟨_, hfree, hactive, a, fl' a, hslabs ▸ h.slabs _ ha, ?_, hlist, hmem⟩, L', fl',
    hinv, hsub, hfits, hdead, fun l hl => ?_, h.distinct.sublist (List.eraseP_sublist.map _)⟩
  · exact (inSlab_congr (hsame.body a)).mpr ((hu.inSlab a o).mpr hin)
  · obtain ⟨hm, hne⟩ := mem_eraseP_of_nodup h.distinct hl
    refine ⟨(List.mem_erase_of_ne (fun e => hne (congrArg Prod.snd e))).mpr (h.owner l hm).1, ?_⟩
    exact (h.owner l hm).2

/-- An object given back in vain is live to the allocator. -/
theorem KmemInv.forget (h : KmemInv k live x s cs all L fl) (o : Nat) :
    KmemInv k (live.eraseP fun p => p.2 = o) x s cs all L fl :=
  { h with
    owner := fun l hl => h.owner l (List.mem_of_mem_eraseP hl)
    distinct := h.distinct.sublist (List.eraseP_sublist.map _) }

/-! ## `init` -/

/-- A descriptor for a new cache: an address that is no cache yet. -/
def NewDesc (k : KmemAllocator) (cs : List Nat) (c : Nat) : Prop :=
  c ≠ 0 ∧ c < wordSize ∧ c ∉ cs ∧ ∀ q ∈ sizeCacheSizes, k.sizeCaches q.1 ≠ c

theorem sizeCaches_init_self (k : KmemAllocator) (p : Nat × UInt32) (cache : Option Nat) :
    (initSizeCache k (p, cache)).sizeCaches p.1 = cache.getD 0 := by
  unfold initSizeCache
  exact Function.update_self _ _ _

theorem sizeCaches_init_of_ne (k : KmemAllocator) {p q : Nat × UInt32} (cache : Option Nat)
    (hp : p ∈ sizeCacheSizes) (hq : q ∈ sizeCacheSizes) (hne : q ≠ p) :
    (initSizeCache k (p, cache)).sizeCaches q.1 = k.sizeCaches q.1 :=
  Function.update_of_ne (fun e => hne (sizes_index q hq p hp e)) _ k.sizeCaches

theorem cache_init_self (k : KmemAllocator) (p : Nat × UInt32) (c : Nat) :
    (initSizeCache k (p, some c)).slab.cache c = newCache k.slab.cacheChain p.2 cacheAlign 0 :=
  Function.update_self c _ k.slab.cache

theorem cache_init_of_ne (k : KmemAllocator) (p : Nat × UInt32) (hd : d ≠ c) :
    (initSizeCache k (p, some c)).slab.cache d = k.slab.cache d :=
  Function.update_of_ne hd _ k.slab.cache

/-- The caches of other sizes stay. -/
theorem KmemInv.init_other {p q : Nat × UInt32} (h : KmemInv k [] x [] cs [] L fl)
    (hp : p ∈ sizeCacheSizes) (hc : NewDesc k cs c) (hq : q ∈ sizeCacheSizes) (hne : q ≠ p)
    (h0 : (initSizeCache k (p, some c)).sizeCaches q.1 ≠ 0) :
    (Fits q → (initSizeCache k (p, some c)).sizeCaches q.1 ∈ cs ∧
      SameSizes (newCache 0 q.2 cacheAlign 0)
        ((initSizeCache k (p, some c)).slab.cache ((initSizeCache k (p, some c)).sizeCaches q.1))) ∧
      (¬ Fits q → (initSizeCache k (p, some c)).sizeCaches q.1 ∉ c :: cs ∧
        Dead (initSizeCache k (p, some c)).slab []
          ((initSizeCache k (p, some c)).sizeCaches q.1)) := by
  rw [sizeCaches_init_of_ne k (some c) hp hq hne] at h0 ⊢
  have hqc := hc.2.2.2 q hq
  refine ⟨fun hfit => ?_, fun hfit => ?_⟩
  · rw [cache_init_of_ne k p hqc]
    exact h.fits q hq hfit h0
  · obtain ⟨hout, hdead⟩ := h.dead q hq hfit h0
    refine ⟨fun hm => ?_, hdead.frame (cache_init_of_ne k p hqc) (fun _ ha => ha)
      (fun _ _ ha => ⟨ha, rfl⟩)⟩
    rcases List.mem_cons.mp hm with e | hm
    · exact hqc e
    · exact hout hm

/-- A turn of `init` for a size that fits. -/
theorem KmemInv.initFits {p : Nat × UInt32} (h : KmemInv k [] k.slab.cacheChain [] cs [] L fl)
    (hnil : k.slab.slabs = []) (hp : p ∈ sizeCacheSizes) (hfit : Fits p) (hc : NewDesc k cs c) :
    ∃ L', KmemInv (initSizeCache k (p, some c)) [] c [] (c :: cs) [] L' fl := by
  have hself : k.slab.seen k.slab.cacheChain [] = k.slab := by
    unfold seen
    rw [← hnil]
  have hseen : (initSizeCache k (p, some c)).slab.seen c [] =
      k.slab.cacheCreate p.2 cacheAlign 0 (some c) := by
    unfold seen
    rw [← hnil]
    rfl
  have hinv := h.inv
  rw [hself] at hinv
  have hnew : SlabInv (k.slab.cacheCreate p.2 cacheAlign 0 (some c)) (c :: cs) []
      (fun d l => if d = c then [] else L d l) fl :=
    hinv.cacheCreate hc.1 hc.2.1 hc.2.2.1 (sizes_newCache p hp).1 ((sizes_newCache p hp).2.2.mp hfit)
  rw [← hseen] at hnew
  refine ⟨_, hnew, nofun, fun q hq hqf h0 => ?_, fun q hq hqf h0 => ?_, nofun, List.nodup_nil⟩
  · by_cases e : q = p
    · subst e
      rw [sizeCaches_init_self, Option.getD_some, cache_init_self]
      exact ⟨List.mem_cons_self, rfl, rfl, rfl⟩
    · obtain ⟨hin, hsame⟩ := (h.init_other hp hc hq e h0).1 hqf
      exact ⟨List.mem_cons_of_mem c hin, hsame⟩
  · exact (h.init_other hp hc hq (fun e => hqf (e ▸ hfit)) h0).2 hqf

/-- A turn of `init` for a size that does not fit. -/
theorem KmemInv.initDead {p : Nat × UInt32} (h : KmemInv k [] x [] cs [] L fl)
    (hp : p ∈ sizeCacheSizes) (hfit : ¬ Fits p) (hc : NewDesc k cs c) :
    KmemInv (initSizeCache k (p, some c)) [] x [] cs [] L fl := by
  refine ⟨h.inv.congr ⟨rfl, rfl, rfl, fun d hd => cache_init_of_ne k p (fun e => hc.2.2.1 (e ▸ hd)),
    fun _ _ => rfl⟩, nofun, fun q hq hqf h0 => ?_, fun q hq hqf h0 => ?_, nofun, List.nodup_nil⟩
  · exact (h.init_other hp hc hq (fun e => hfit (e ▸ hqf)) h0).1 hqf
  · by_cases e : q = p
    · subst e
      have hnum := Nat.eq_zero_of_not_pos (fun hpos => hqf ((sizes_newCache q hq).2.2.mpr hpos))
      rw [sizeCaches_init_self, Option.getD_some]
      refine ⟨hc.2.2.1, ?_, ?_, ?_⟩
      · rw [cache_init_self]
        exact hnum
      · rw [cache_init_self]
        rfl
      · rw [cache_init_self]
        exact Or.inl rfl
    · obtain ⟨hout, hdead⟩ := (h.init_other hp hc hq e h0).2 hqf
      exact ⟨fun hm => hout (List.mem_cons_of_mem c hm), hdead⟩

/-- A turn of `init` without a descriptor. -/
theorem KmemInv.initNone {p : Nat × UInt32} (h : KmemInv k [] x [] cs [] L fl)
    (hp : p ∈ sizeCacheSizes) : KmemInv (initSizeCache k (p, none)) [] x [] cs [] L fl := by
  have hne : ∀ q, (initSizeCache k (p, none)).sizeCaches q.1 ≠ 0 → q ≠ p := by
    rintro q h0 rfl
    exact h0 (sizeCaches_init_self k q none)
  refine ⟨h.inv, nofun, fun q hq hqf h0 => ?_, fun q hq hqf h0 => ?_, nofun, List.nodup_nil⟩
  · have hold := sizeCaches_init_of_ne k none hp hq (hne q h0)
    rw [hold] at h0 ⊢
    exact h.fits q hq hqf h0
  · have hold := sizeCaches_init_of_ne k none hp hq (hne q h0)
    rw [hold] at h0 ⊢
    exact h.dead q hq hqf h0

/-- The loop of `init`.  While there are sizes left that fit, only caches that fit
are on the chain. -/
theorem KmemInv.initLoop : ∀ (ps : List ((Nat × UInt32) × Option Nat)) {k : KmemAllocator} {x : Nat}
    {cs : List Nat} {L : Nat → SlabList → List Nat}, KmemInv k [] x [] cs [] L fl →
    k.slab.slabs = [] → (∀ p ∈ ps, p.1 ∈ sizeCacheSizes) →
    (ps.map Prod.fst).Pairwise (fun p q => p.2 ≤ q.2) →
    (∀ p ∈ ps, Fits p.1 → x = k.slab.cacheChain) →
    (∀ c ∈ (ps.map Prod.snd).reduceOption, NewDesc k cs c) →
    (ps.map Prod.snd).reduceOption.Nodup →
    ∃ x' cs' L', KmemInv (ps.foldl initSizeCache k) [] x' [] cs' [] L' fl := by
  intro ps
  induction ps with
  | nil => intro k x cs L h _ _ _ _ _ _; exact ⟨x, cs, L, h⟩
  | cons p ps ih =>
      intro k x cs L h hnil hsizes hsorted hx hnew hnd
      have hp := hsizes p List.mem_cons_self
      have hps : ∀ q ∈ ps, q.1 ∈ sizeCacheSizes := fun q hq => hsizes q (List.mem_cons_of_mem p hq)
      rw [List.map_cons] at hsorted
      obtain ⟨hle, hlater⟩ := List.pairwise_cons.mp hsorted
      obtain ⟨p, cache⟩ := p
      cases cache with
      | none =>
          refine ih (h.initNone hp) hnil hps hlater (fun q hq => hx q (List.mem_cons_of_mem _ hq))
            (fun c hc => ?_) hnd
          obtain ⟨hc0, hcw, hcs, hother⟩ := hnew c hc
          refine ⟨hc0, hcw, hcs, fun q hq => ?_⟩
          by_cases e : q = p
          · rw [e, sizeCaches_init_self]
            exact hc0.symm
          · rw [sizeCaches_init_of_ne k none hp hq e]
            exact hother q hq
      | some c =>
          have hred : (((p, some c) :: ps).map Prod.snd).reduceOption =
              c :: (ps.map Prod.snd).reduceOption := rfl
          rw [hred] at hnew hnd
          obtain ⟨hcn, hnd⟩ := List.nodup_cons.mp hnd
          have hc := hnew c List.mem_cons_self
          have hrest : ∀ cs', (∀ d ∈ cs', d = c ∨ d ∈ cs) → ∀ d ∈ (ps.map Prod.snd).reduceOption,
              NewDesc (initSizeCache k (p, some c)) cs' d := by
            intro cs' hcs' d hd
            obtain ⟨hd0, hdw, hdcs, hother⟩ := hnew d (List.mem_cons_of_mem c hd)
            have hdc : c ≠ d := fun e => hcn (e ▸ hd)
            refine ⟨hd0, hdw, fun hm => ?_, fun q hq => ?_⟩
            · rcases hcs' d hm with e | hm
              · exact hdc e.symm
              · exact hdcs hm
            · by_cases e : q = p
              · rw [e, sizeCaches_init_self]
                exact hdc
              · rw [sizeCaches_init_of_ne k (some c) hp hq e]
                exact hother q hq
          by_cases hfit : Fits p
          · obtain rfl := hx _ List.mem_cons_self hfit
            obtain ⟨L', h'⟩ := h.initFits hnil hp hfit hc
            exact ih h' hnil hps hlater (fun _ _ _ => rfl)
              (hrest (c :: cs) (fun d hd => List.mem_cons.mp hd)) hnd
          · -- the sizes left do not fit either
            refine ih (h.initDead hp hfit hc) hnil hps hlater (fun q hq hqf => ?_)
              (hrest cs (fun d hd => Or.inr hd)) hnd
            exact absurd (hqf.mono (hle q.1 (List.mem_map_of_mem hq))) hfit

end KmemAllocator

namespace KmemHeap

open SlabAllocator KmemAllocator

variable {h : KmemHeap}

/-- Some caches, slabs and lists witness the invariant. -/
def Good (h : KmemHeap) : Prop :=
  ∃ x s cs all L fl, KmemInv h.kmem h.live x s cs all L fl

theorem good_start (mem : Memory) {descs : List (Option Nat)} (hd : DescsOk descs) :
    (start mem descs).Good := by
  have hfst : ((sizeCacheSizes.zip descs).map Prod.fst).Sublist sizeCacheSizes :=
    fst_zip_sublist sizeCacheSizes descs
  have hsnd : ((sizeCacheSizes.zip descs).map Prod.snd).reduceOption.Sublist descs.reduceOption :=
    (snd_zip_sublist sizeCacheSizes descs).filterMap id
  have hempty : KmemInv { slab := SlabAllocator.init mem, sizeCaches := fun _ => 0 } [] 0 [] [] []
      (fun _ _ => []) (fun _ => []) :=
    ⟨SlabInv.init mem, nofun, fun _ _ _ h0 => absurd rfl h0, fun _ _ _ h0 => absurd rfl h0, nofun,
      List.nodup_nil⟩
  have hdesc : ∀ c ∈ ((sizeCacheSizes.zip descs).map Prod.snd).reduceOption,
      NewDesc { slab := SlabAllocator.init mem, sizeCaches := fun _ => 0 } [] c := by
    intro c hc
    obtain ⟨hc0, hcw⟩ := hd.1 c (hsnd.subset hc)
    exact ⟨hc0, hcw, List.not_mem_nil, fun _ _ => hc0.symm⟩
  obtain ⟨x, cs, L, hi⟩ := hempty.initLoop (sizeCacheSizes.zip descs) rfl
    (fun p hp => (List.of_mem_zip hp).1) (sizes_sorted.sublist hfst) (fun _ _ _ => rfl) hdesc
    (hd.2.sublist hsnd)
  exact ⟨x, [], cs, [], L, _, hi⟩

/-- **One call.** -/
theorem Good.step (hg : h.Good) {call : KmemCall} (hok : h.Allowed call) :
    ∃ h', h.step call = some h' ∧ h'.Good := by
  obtain ⟨x, s, cs, all, L, fl, hi⟩ := hg
  cases call with
  | alloc size buddy =>
      obtain ⟨⟨s', all', L', fl', hi'⟩, _⟩ := hi.alloc hok
      exact ⟨_, rfl, x, s', cs, all', L', fl', hi'⟩
  | free obj =>
      obtain ⟨⟨c, o⟩, ho, rfl⟩ := List.mem_map.mp hok
      by_cases hmark : h.kmem.slab.mem.mark o = slabMagic
      · by_cases hc : c = h.kmem.firstSizeCache
        · obtain ⟨k', hk', _, L', fl', hi'⟩ := hi.free_first ho hmark hc
          exact ⟨_, by rw [KmemHeap.step, hk']; rfl, x, s, cs, _, L', fl', hi'⟩
        · have hk' := hi.free_other ho hmark hc
          exact ⟨_, by rw [KmemHeap.step, hk']; rfl, x, s, cs, all, L, fl, hi.forget o⟩
      · have hk' : h.kmem.kmemCacheFree o = some h.kmem := by
          unfold kmemCacheFree
          rw [if_neg (hi.obj_ne_zero ho), if_pos hmark]
        exact ⟨_, by rw [KmemHeap.step, hk']; rfl, x, s, cs, all, L, fl, hi.forget o⟩
  | write addr byte =>
      refine ⟨_, rfl, x, s, cs, all, L, fl, hi.inv.write byte ?_, hi.slabs, hi.fits,
        fun p hp hfit h0 => ?_, hi.owner, hi.distinct⟩
      · rcases hok with ⟨l, hl, hin⟩ | hout
        · exact Or.inl ⟨l, (hi.owner l hl).1, hin⟩
        · exact Or.inr (fun p hp => hout p (hi.slabs p hp))
      · obtain ⟨hcs, hdead⟩ := hi.dead p hp hfit h0
        exact ⟨hcs, hdead.frame rfl (fun _ ha => ha) (fun _ _ ha => ⟨ha, rfl⟩)⟩

theorem good_of_reaches (mem : Memory) {descs : List (Option Nat)} (hd : DescsOk descs)
    (hr : Reaches KmemHeap.step Allowed (start mem descs) h) : h.Good := by
  refine hr.invariant (I := Good) (good_start mem hd) ?_
  rintro u call u' hg hok hs
  obtain ⟨h', hs', hg'⟩ := hg.step hok
  rw [hs] at hs'
  exact Option.some.inj hs' ▸ hg'

/-- **Which sizes are served, and which objects taken back.**  In every state
reached, a size is served exactly if it is 4096 at most, or has no cache (the
buddy allocator gave no descriptor), or the buddy allocator has no memory now; a
live object is taken back exactly if its cache is the first that is not null. -/
theorem size_caches_serve (mem : Memory) {descs : List (Option Nat)} (hd : DescsOk descs)
    (hr : Reaches KmemHeap.step Allowed (start mem descs) h) :
    (∀ size buddy, h.Allowed (.alloc size buddy) →
      (h.kmem.Serves size buddy ↔
        size.toNat ≤ slabMaxSize ∨ h.kmem.findSizeCache size = 0 ∨ buddy = none)) ∧
      ∀ c o, (c, o) ∈ h.live → h.kmem.slab.mem.mark o = slabMagic →
        (h.kmem.TakesBack c o ↔ c = h.kmem.firstSizeCache) := by
  obtain ⟨x, s, cs, all, L, fl, hi⟩ := good_of_reaches mem hd hr
  refine ⟨fun size buddy hok => ?_, fun c o ho hmark => ?_⟩
  · obtain ⟨_, hserves, hbig⟩ := hi.alloc hok
    constructor
    · intro hs
      by_cases hsize : size.toNat ≤ slabMaxSize
      · exact Or.inl hsize
      · exact Or.inr (hs.null (hbig hsize))
    · rintro (hsize | hc | rfl)
      · exact hserves (Or.inr hsize)
      · exact hserves (Or.inl hc)
      · by_cases hsize : size.toNat ≤ slabMaxSize
        · exact hserves (Or.inr hsize)
        · exact ⟨fun _ => Or.inr rfl, fun hne => absurd (hbig hsize) hne⟩
  · constructor
    · intro hb
      by_contra hne
      obtain ⟨k', hk', hactive, _⟩ := hb
      rw [hi.free_other ho hmark hne] at hk'
      rw [← Option.some.inj hk'] at hactive
      exact absurd hactive (Nat.succ_ne_self _)
    · intro hc
      obtain ⟨_, _, hb, _⟩ := hi.free_first ho hmark hc
      exact hb

/-- Twelve descriptors, one for each size. -/
def twelve : List (Option Nat) := (List.range 12).map (fun i => some (64 * (i + 1)))

theorem descsOk_twelve : DescsOk twelve := by decide +kernel

/-- After two requests another size is served, and the object of 8 bytes is taken
back. -/
theorem size_caches_serve_small :
    ∃ h, Reaches KmemHeap.step Allowed (start (fun _ => 7) twelve) h ∧
      h.live = [(64, 73720), (128, 69616)] ∧ h.kmem.Serves 100 (some ⟨4224, 73728⟩) ∧
      h.kmem.TakesBack 64 73720 := by
  obtain ⟨h, hr, hh⟩ := Reaches.of_checked_script KmemHeap.step Allowed (start (fun _ => 7) twelve)
    (fun h => h.live == [(64, 73720), (128, 69616)] &&
      decide (h.Allowed (.alloc 100 (some ⟨4224, 73728⟩))) &&
      decide (h.kmem.slab.mem.mark 73720 = slabMagic) && decide (64 = h.kmem.firstSizeCache))
    [.alloc 16 (some ⟨4096, 65536⟩), .alloc 8 (some ⟨4160, 69632⟩)] (by decide +kernel)
  simp only [Bool.and_eq_true, decide_eq_true_eq, beq_iff_eq] at hh
  obtain ⟨⟨⟨hlive, hok⟩, hmark⟩, hfirst⟩ := hh
  obtain ⟨hserves, htakes⟩ := size_caches_serve (fun _ => 7) descsOk_twelve hr
  refine ⟨h, hr, hlive, (hserves 100 _ hok).mpr (Or.inl (by decide)), ?_⟩
  exact (htakes 64 73720 (by rw [hlive]; exact List.mem_cons_self) hmark).mpr hfirst

/-- A request for 8192 bytes gets nothing, with memory at hand, and an object of
16 bytes is not taken back. -/
theorem size_caches_fail :
    ∃ h, Reaches KmemHeap.step Allowed (start (fun _ => 7) twelve) h ∧
      (h.Allowed (.alloc 8192 (some ⟨4160, 69632⟩)) ∧ ¬ h.kmem.Serves 8192 (some ⟨4160, 69632⟩)) ∧
      (128, 69616) ∈ h.live ∧ h.kmem.slab.mem.mark 69616 = slabMagic ∧
      ¬ h.kmem.TakesBack 128 69616 := by
  obtain ⟨h, hr, hh⟩ := Reaches.of_checked_script KmemHeap.step Allowed (start (fun _ => 7) twelve)
    (fun h => decide (h.Allowed (.alloc 8192 (some ⟨4160, 69632⟩))) &&
      decide ((h.kmem.kmemCacheAlloc 8192 (some ⟨4160, 69632⟩)).2 = 0) &&
      decide (h.kmem.findSizeCache 8192 ≠ 0) && decide ((128, 69616) ∈ h.live) &&
      decide (h.kmem.slab.mem.mark 69616 = slabMagic) &&
      (h.kmem.kmemCacheFree 69616).all fun k =>
        decide ((k.slab.cache 128).numActiveObjs = (h.kmem.slab.cache 128).numActiveObjs))
    [.alloc 16 (some ⟨4096, 65536⟩)] (by decide +kernel)
  simp only [Bool.and_eq_true, decide_eq_true_eq] at hh
  obtain ⟨⟨⟨⟨⟨hok, hnull⟩, hcache⟩, hlive⟩, hmark⟩, hfree⟩ := hh
  refine ⟨h, hr, ⟨hok, fun hs => ?_⟩, hlive, hmark, ?_⟩
  · exact (hs.null hnull).elim hcache nofun
  · rintro ⟨k', hk', hactive, _⟩
    rw [hk', Option.all_some, decide_eq_true_eq] at hfree
    exact absurd (hfree ▸ hactive) (Nat.succ_ne_self _)

end KmemHeap

end KmOS
