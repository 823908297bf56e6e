/-
# `KmOS.Slab.Objects` — the objects of the slabs

In every slab the free objects, threaded on the slab's list, and the live ones
make up the slots of its memory, each slot once (`SlabOk.slots`).  `Objects`
says this of all slabs together with what the counters of slabs and caches are.
It does not mention the lists slabs are on, so moving a slab does not touch it;
taking an object, giving one back, making a slab and destroying one each change
a single slab.
-/
import Mathlib.Algebra.BigOperators.Group.List.Basic
import KmOS.Lib.Regions
import KmOS.Slab.Lists

namespace KmOS

namespace SlabAllocator

variable {z z' : SlabAllocator} {cs : List Nat} {live : List (Nat × Nat)} {c a o : Nat}
  {fl : Nat → List Nat}

/-! ## Definitions -/

/-- `o` lies in the memory of the slab at `a`. -/
def InSlab (z : SlabAllocator) (a o : Nat) : Prop :=
  (z.slab a).mem ≤ o ∧ o < (z.slab a).mem + blockSize (z.slab a).order

instance (z : SlabAllocator) (a o : Nat) : Decidable (InSlab z a o) :=
  inferInstanceAs (Decidable (_ ∧ _))

/-- The live objects of a slab. -/
def liveOf (z : SlabAllocator) (live : List (Nat × Nat)) (c a : Nat) : List Nat :=
  (live.filter (fun p => decide (p.1 = c ∧ InSlab z a p.2))).map Prod.snd

/-- The slabs of a cache. -/
def slabsOf (z : SlabAllocator) (c : Nat) : List Nat :=
  (z.slabs.filter (fun p => decide (p.1 = c))).map Prod.snd

/-- A slab of the cache `c` whose free objects are `fl`. -/
structure SlabOk (z : SlabAllocator) (live : List (Nat × Nat)) (c a : Nat) (fl : List Nat) : Prop where
  nonnull : a ≠ 0
  base : (z.slab a).mem ≠ 0
  space : (z.slab a).mem + blockSize (z.slab a).order < wordSize
  order : (z.slab a).order = (z.cache c).gfpOrder
  magic : (z.slab a).magic = slabMagic
  list : Sll 0 z.mem.link (z.slab a).freelist fl
  mark : ∀ o ∈ fl, z.mem.mark o = slabMagic
  slots : (fl ++ liveOf z live c a).Perm
    (slots (z.slab a).mem (z.cache c).objSize (z.cache c).numObjsPerSlab)
  free : (z.slab a).free = fl.length
  inuse : (z.slab a).inuse = (liveOf z live c a).length

/-- An object holds `struct slab_obj`, and a slab holds its objects. -/
structure CacheOk (s : SlabCache) : Prop where
  objSize : sizeofSlabObj ≤ s.objSize
  some : 0 < s.numObjsPerSlab
  fit : s.numObjsPerSlab * s.objSize ≤ blockSize s.gfpOrder

/-- The counters of a cache. -/
structure Counts (z : SlabAllocator) (c : Nat) : Prop where
  slabs : (z.cache c).numSlabs = (slabsOf z c).length
  active : (z.cache c).numActiveObjs = ((slabsOf z c).map (fun a => (z.slab a).inuse)).sum
  free : (z.cache c).numFreeObjs = ((slabsOf z c).map (fun a => (z.slab a).free)).sum

/-- **All slabs and the counters.** -/
structure Objects (z : SlabAllocator) (cs : List Nat) (live : List (Nat × Nat))
    (fl : Nat → List Nat) : Prop where
  cache : ∀ c ∈ cs, CacheOk (z.cache c)
  owner : ∀ p ∈ z.slabs, p.1 ∈ cs
  nodup : (z.slabs.map Prod.snd).Nodup
  regions : Disjoints (fun p => (z.slab p.2).mem) (SlabHeap.slabLen z) z.slabs
  slab : ∀ p ∈ z.slabs, SlabOk z live p.1 p.2 (fl p.2)
  count : ∀ c ∈ cs, Counts z c
  live_nodup : live.Nodup
  live_slab : ∀ p ∈ live, ∃ a, (p.1, a) ∈ z.slabs ∧ InSlab z a p.2

/-! ## What follows at once -/

theorem mem_slabsOf : a ∈ slabsOf z c ↔ (c, a) ∈ z.slabs := by
  unfold slabsOf
  rw [List.mem_map]
  constructor
  · rintro ⟨⟨d, b⟩, hp, rfl⟩
    obtain ⟨hp, hd⟩ := List.mem_filter.mp hp
    have hd' : d = c := by simpa using hd
    exact hd' ▸ hp
  · intro h
    exact ⟨(c, a), List.mem_filter.mpr ⟨h, by simp⟩, rfl⟩

theorem mem_liveOf : o ∈ liveOf z live c a ↔ (c, o) ∈ live ∧ InSlab z a o := by
  unfold liveOf
  rw [List.mem_map]
  constructor
  · rintro ⟨⟨d, b⟩, hp, rfl⟩
    obtain ⟨hp, hd⟩ := List.mem_filter.mp hp
    have hd' : d = c ∧ InSlab z a b := by simpa using hd
    exact ⟨hd'.1 ▸ hp, hd'.2⟩
  · rintro ⟨h, hin⟩
    exact ⟨(c, o), List.mem_filter.mpr ⟨h, by simp [hin]⟩, rfl⟩

theorem Objects.slabs_nodup (h : Objects z cs live fl) : (slabsOf z c).Nodup :=
  h.nodup.sublist (List.filter_sublist.map Prod.snd)

/-- A slab belongs to one cache. -/
theorem Objects.owner_unique (h : Objects z cs live fl) {d : Nat} (hc : (c, a) ∈ z.slabs)
    (hd : (d, a) ∈ z.slabs) : d = c := by
  have := List.inj_on_of_nodup_map h.nodup hd hc rfl
  exact congrArg Prod.fst this

/-- The memory of two slabs does not overlap. -/
theorem Objects.slab_unique (h : Objects z cs live fl) {d b : Nat} (hc : (c, a) ∈ z.slabs)
    (hd : (d, b) ∈ z.slabs) (ha : InSlab z a o) (hb : InSlab z b o) : b = a := by
  by_contra hne
  have := h.regions.of_ne hd hc (fun e => hne (congrArg Prod.snd e))
  unfold InSlab at ha hb
  unfold SlabHeap.slabLen at this
  dsimp only at this
  omega

/-- A slot lies in its slab's memory, whole. -/
theorem slot_inSlab (hc : CacheOk (z.cache c)) (hord : (z.slab a).order = (z.cache c).gfpOrder)
    (ho : o ∈ KmOS.slots (z.slab a).mem (z.cache c).objSize (z.cache c).numObjsPerSlab) :
    InSlab z a o ∧ o + (z.cache c).objSize ≤ (z.slab a).mem + blockSize (z.slab a).order := by
  have hb := slots_bounds ho
  have hfit := hc.fit
  have hsize := hc.objSize
  unfold sizeofSlabObj at hsize
  unfold InSlab
  rw [hord]
  omega

theorem SlabOk.fl_slot {fl : List Nat} (h : SlabOk z live c a fl) (ho : o ∈ fl) :
    o ∈ KmOS.slots (z.slab a).mem (z.cache c).objSize (z.cache c).numObjsPerSlab :=
  h.slots.subset (List.mem_append_left _ ho)

theorem SlabOk.live_slot {fl : List Nat} (h : SlabOk z live c a fl) (ho : o ∈ liveOf z live c a) :
    o ∈ KmOS.slots (z.slab a).mem (z.cache c).objSize (z.cache c).numObjsPerSlab :=
  h.slots.subset (List.mem_append_right _ ho)

theorem SlabOk.total {fl : List Nat} (h : SlabOk z live c a fl) :
    (z.slab a).free + (z.slab a).inuse = (z.cache c).numObjsPerSlab := by
  have := h.slots.length_eq
  rw [List.length_append, length_slots] at this
  rw [h.free, h.inuse, this]

/-- Free and live objects are different slots. -/
theorem SlabOk.nodup {fl : List Nat} (h : SlabOk z live c a fl) (hc : CacheOk (z.cache c)) :
    (fl ++ liveOf z live c a).Nodup := by
  have hsize := hc.objSize
  unfold sizeofSlabObj at hsize
  exact h.slots.nodup_iff.mpr (slots_nodup (by omega))

theorem Objects.regionsOf (h : Objects z cs live fl) (c : Nat) :
    Disjoints (fun b => (z.slab b).mem) (fun b => blockSize (z.slab b).order) (slabsOf z c) := by
  refine List.Pairwise.imp_of_mem ?_ (h.slabs_nodup (c := c))
  intro b d hb hd hne
  exact h.regions.of_ne (mem_slabsOf.mp hb) (mem_slabsOf.mp hd) (fun e => hne (congrArg Prod.snd e))

theorem CacheOk.num_le {s : SlabCache} (h : CacheOk s) : s.numObjsPerSlab ≤ blockSize s.gfpOrder := by
  have hsize := h.objSize
  unfold sizeofSlabObj at hsize
  exact Nat.le_trans (Nat.le_mul_of_pos_right _ (by omega)) h.fit

/-- All objects of a cache together are fewer than the addresses. -/
theorem Objects.total_lt (h : Objects z cs live fl) (hc : c ∈ cs) :
    ((slabsOf z c).map (fun a => (z.slab a).free)).sum +
      ((slabsOf z c).map (fun a => (z.slab a).inuse)).sum < wordSize := by
  rw [← List.sum_map_add]
  refine sum_weights_lt (h.regionsOf c) (by decide) (fun b hb => ?_)
  have hok := h.slab _ (mem_slabsOf.mp hb)
  refine ⟨?_, hok.space⟩
  rw [hok.total, hok.order]
  exact (h.cache c hc).num_le

/-! ## What does not matter -/

/-- Two descriptors that differ in links only. -/
def SameBody (s s' : Slab) : Prop :=
  s'.mem = s.mem ∧ s'.inuse = s.inuse ∧ s'.free = s.free ∧ s'.freelist = s.freelist ∧
    s'.order = s.order ∧ s'.magic = s.magic

/-- The sizes of two caches agree. -/
def SameSizes (s s' : SlabCache) : Prop :=
  s'.objSize = s.objSize ∧ s'.numObjsPerSlab = s.numObjsPerSlab ∧ s'.gfpOrder = s.gfpOrder

theorem SameObjects.body (h : SameObjects z z') (a : Nat) : SameBody (z.slab a) (z'.slab a) := by
  obtain ⟨n, p, e⟩ := h.slab a
  rw [e]
  exact ⟨rfl, rfl, rfl, rfl, rfl, rfl⟩

theorem SameObjects.sizes (h : SameObjects z z') (c : Nat) : SameSizes (z.cache c) (z'.cache c) := by
  obtain ⟨f, e⟩ := h.cache c
  rw [e]
  exact ⟨rfl, rfl, rfl⟩

theorem inSlab_congr (hb : SameBody (z.slab a) (z'.slab a)) : InSlab z' a o ↔ InSlab z a o := by
  unfold InSlab
  rw [hb.1, hb.2.2.2.2.1]

theorem liveOf_congr (hb : SameBody (z.slab a) (z'.slab a)) :
    liveOf z' live c a = liveOf z live c a := by
  unfold liveOf
  simp only [inSlab_congr hb]

theorem CacheOk.congr {s s' : SlabCache} (h : CacheOk s) (hs : SameSizes s s') : CacheOk s' := by
  obtain ⟨h₁, h₂, h₃⟩ := hs
  refine ⟨?_, ?_, ?_⟩
  · rw [h₁]
    exact h.objSize
  · rw [h₂]
    exact h.some
  · rw [h₁, h₂, h₃]
    exact h.fit

/-- A slab reads its own descriptor, the sizes of its cache, its free objects'
words and which of its slots are live. -/
theorem SlabOk.congr {fl : List Nat} {live' : List (Nat × Nat)} (h : SlabOk z live c a fl)
    (hb : SameBody (z.slab a) (z'.slab a)) (hs : SameSizes (z.cache c) (z'.cache c))
    (hm : ∀ o ∈ fl, z'.mem.link o = z.mem.link o ∧ z'.mem.mark o = z.mem.mark o)
    (hl : liveOf z' live' c a = liveOf z live c a) : SlabOk z' live' c a fl := by
  obtain ⟨h₁, h₂, h₃, h₄, h₅, h₆⟩ := hb
  obtain ⟨h₇, h₈, h₉⟩ := hs
  refine ⟨h.nonnull, ?_, ?_, ?_, ?_, ?_, ?_, ?_, ?_, ?_⟩
  · rw [h₁]
    exact h.base
  · rw [h₁, h₅]
    exact h.space
  · rw [h₅, h₉]
    exact h.order
  · rw [h₆]
    exact h.magic
  · rw [h₄]
    exact h.list.congr (fun o ho => (hm o ho).1)
  · intro o ho
    rw [(hm o ho).2]
    exact h.mark o ho
  · rw [hl, h₁, h₇, h₈]
    exact h.slots
  · rw [h₃]
    exact h.free
  · rw [hl, h₂]
    exact h.inuse

/-- **Moving slabs between lists** changes no object and no counter. -/
theorem Objects.same (h : Objects z cs live fl) (hs : SameObjects z z') :
    Objects z' cs live fl := by
  have hof : ∀ c, slabsOf z' c = slabsOf z c := by
    intro c
    unfold slabsOf
    rw [hs.slabs]
  refine ⟨fun c hc => (h.cache c hc).congr (hs.sizes c), ?_, ?_, ?_, ?_, fun c hc => ?_, h.live_nodup, ?_⟩
  · rw [hs.slabs]
    exact h.owner
  · rw [hs.slabs]
    exact h.nodup
  · rw [hs.slabs]
    refine h.regions.imp (fun {p q} hpq => ?_)
    unfold SlabHeap.slabLen at hpq ⊢
    dsimp only at hpq ⊢
    rw [(hs.body p.2).1, (hs.body p.2).2.2.2.2.1, (hs.body q.2).1, (hs.body q.2).2.2.2.2.1]
    exact hpq
  · rw [hs.slabs]
    intro p hp
    exact (h.slab p hp).congr (hs.body p.2) (hs.sizes p.1)
      (fun o _ => by rw [hs.mem]; exact ⟨rfl, rfl⟩) (liveOf_congr (hs.body p.2))
  · obtain ⟨f, e⟩ := hs.cache c
    obtain ⟨h₁, h₂, h₃⟩ := h.count c hc
    refine ⟨?_, ?_, ?_⟩
    · rw [e, hof]
      exact h₁
    · rw [e, hof, List.map_congr_left (fun b _ => (hs.body b).2.1)]
      exact h₂
    · rw [e, hof, List.map_congr_left (fun b _ => (hs.body b).2.2.1)]
      exact h₃
  · intro p hp
    obtain ⟨a, ha, hin⟩ := h.live_slab p hp
    exact ⟨a, hs.slabs ▸ ha, (inSlab_congr (hs.body a)).mpr hin⟩

/-! ## One slab changes -/

/-- The allocator after one slab and its cache's counters have been rewritten,
and perhaps bytes inside that slab. -/
structure OneSlab (z z' : SlabAllocator) (c a : Nat) : Prop where
  slabs : z'.slabs = z.slabs
  other : ∀ b, b ≠ a → z'.slab b = z.slab b
  caches : ∀ d, d ≠ c → z'.cache d = z.cache d
  sizes : SameSizes (z.cache c) (z'.cache c)
  count : (z'.cache c).numSlabs = (z.cache c).numSlabs
  mem : (z'.slab a).mem = (z.slab a).mem
  order : (z'.slab a).order = (z.slab a).order
  magic : (z'.slab a).magic = (z.slab a).magic
  bytes : ∀ x, ¬ InSlab z a x → z'.mem x = z.mem x

theorem OneSlab.sizes_all (u : OneSlab z z' c a) (d : Nat) : SameSizes (z.cache d) (z'.cache d) := by
  by_cases e : d = c
  · subst e
    exact u.sizes
  · rw [u.caches d e]
    exact ⟨rfl, rfl, rfl⟩

theorem OneSlab.inSlab (u : OneSlab z z' c a) (b o : Nat) : InSlab z' b o ↔ InSlab z b o := by
  unfold InSlab
  by_cases e : b = a
  · subst e
    rw [u.mem, u.order]
  · rw [u.other b e]

theorem OneSlab.liveOf (u : OneSlab z z' c a) (d b : Nat) :
    liveOf z' live d b = liveOf z live d b := by
  unfold SlabAllocator.liveOf
  simp only [u.inSlab]

theorem OneSlab.slabsOf (u : OneSlab z z' c a) (d : Nat) : slabsOf z' d = slabsOf z d := by
  unfold SlabAllocator.slabsOf
  rw [u.slabs]

/-- **The rule for taking and giving objects**: it is enough to look at the slab
that changed, if the live objects of the others stay. -/
theorem Objects.oneSlab {live' : List (Nat × Nat)} {t : List Nat} (h : Objects z cs live fl)
    (ha : (c, a) ∈ z.slabs) (u : OneSlab z z' c a) (hok : SlabOk z' live' c a t)
    (hlive : ∀ d b, (d, b) ∈ z.slabs → b ≠ a → liveOf z live' d b = liveOf z live d b)
    (hnd : live'.Nodup) (hsub : ∀ p ∈ live', p ∈ live ∨ p.1 = c ∧ InSlab z a p.2)
    (hact : (z'.cache c).numActiveObjs + (z.slab a).inuse = (z.cache c).numActiveObjs + (z'.slab a).inuse)
    (hfree : (z'.cache c).numFreeObjs + (z.slab a).free = (z.cache c).numFreeObjs + (z'.slab a).free) :
    Objects z' cs live' (Function.update fl a t) := by
  have hc : c ∈ cs := h.owner _ ha
  have haof : a ∈ SlabAllocator.slabsOf z c := mem_slabsOf.mpr ha
  refine ⟨fun d hd => (h.cache d hd).congr (u.sizes_all d), ?_, ?_, ?_, ?_, fun d hd => ?_, hnd, ?_⟩
  · rw [u.slabs]
    exact h.owner
  · rw [u.slabs]
    exact h.nodup
  · rw [u.slabs]
    refine h.regions.imp (fun {p q} hpq => ?_)
    have hmem : ∀ b, (z'.slab b).mem = (z.slab b).mem := by
      intro b
      by_cases e : b = a
      · rw [e, u.mem]
      · rw [u.other b e]
    have hord : ∀ b, (z'.slab b).order = (z.slab b).order := by
      intro b
      by_cases e : b = a
      · rw [e, u.order]
      · rw [u.other b e]
    unfold SlabHeap.slabLen at hpq ⊢
    simp only [hmem, hord]
    exact hpq
  · rw [u.slabs]
    rintro ⟨d, b⟩ hp
    by_cases e : b = a
    · subst e
      have hdc : d = c := h.owner_unique ha hp
      subst hdc
      rw [Function.update_self]
      exact hok
    · have hslab := h.slab _ hp
      dsimp only at hslab ⊢
      rw [Function.update_of_ne e]
      refine hslab.congr (by rw [u.other b e]; exact ⟨rfl, rfl, rfl, rfl, rfl, rfl⟩) (u.sizes_all d)
        (fun o ho => ?_) (by rw [u.liveOf]; exact hlive d b hp e)
      -- a free object of another slab lies outside the slab that changed
      obtain ⟨hin, hend⟩ := slot_inSlab (h.cache d (h.owner _ hp)) hslab.order (hslab.fl_slot ho)
      have hsize := (h.cache d (h.owner _ hp)).objSize
      unfold sizeofSlabObj at hsize
      refine Memory.link_mark_congr (fun x h₁ h₂ => u.bytes x (fun hx => e ?_))
      refine h.slab_unique ha hp hx ?_
      unfold InSlab at hin ⊢
      omega
  · obtain ⟨h₁, h₂, h₃⟩ := h.count d hd
    by_cases e : d = c
    · subst e
      have hsum := fun (f g : Nat → Nat) => sum_map_change (f := f) (g := g) (h.slabs_nodup (c := d)) haof
      have hi := hsum (fun b => (z.slab b).inuse) (fun b => (z'.slab b).inuse)
        (fun b _ hb => by rw [u.other b hb])
      have hf := hsum (fun b => (z.slab b).free) (fun b => (z'.slab b).free)
        (fun b _ hb => by rw [u.other b hb])
      refine ⟨?_, ?_, ?_⟩
      · rw [u.slabsOf, u.count]
        exact h₁
      · rw [u.slabsOf]
        omega
      · rw [u.slabsOf]
        omega
    · have hne : ∀ b ∈ SlabAllocator.slabsOf z d, z'.slab b = z.slab b := by
        intro b hb
        refine u.other b (fun hb' => e ?_)
        subst hb'
        exact h.owner_unique ha (mem_slabsOf.mp hb)
      refine ⟨?_, ?_, ?_⟩
      · rw [u.slabsOf, u.caches d e]
        exact h₁
      · rw [u.slabsOf, u.caches d e, List.map_congr_left (fun b hb => by rw [hne b hb])]
        exact h₂
      · rw [u.slabsOf, u.caches d e, List.map_congr_left (fun b hb => by rw [hne b hb])]
        exact h₃
  · intro p hp
    rcases hsub p hp with hp | ⟨hpc, hin⟩
    · obtain ⟨b, hb, hin⟩ := h.live_slab p hp
      exact ⟨b, u.slabs ▸ hb, (u.inSlab b p.2).mpr hin⟩
    · exact ⟨a, by rw [u.slabs, hpc]; exact ha, (u.inSlab a p.2).mpr hin⟩

end SlabAllocator

end KmOS
