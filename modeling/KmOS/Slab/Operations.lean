/-
# `KmOS.Slab.Operations` — objects and slabs come and go

What `slab_alloc_obj`, `slab_free_obj`, `slab_create` and `slab_destroy` do to
the objects, each with the counters its caller updates along with it.
-/
import Mathlib.Algebra.Order.BigOperators.Group.List
import Mathlib.Algebra.Order.Group.Nat
import KmOS.Slab.Objects

namespace KmOS

namespace SlabAllocator

variable {z z' : SlabAllocator} {cs : List Nat} {live : List (Nat × Nat)} {c a o : Nat}
  {fl : Nat → List Nat}

theorem slab_modSlab (z : SlabAllocator) (a b : Nat) (f : Slab → Slab) :
    (z.modSlab a f).slab b = if b = a then f (z.slab a) else z.slab b := by
  unfold modSlab
  dsimp only
  rw [Function.update_apply]

theorem cache_modCache (z : SlabAllocator) (c d : Nat) (f : SlabCache → SlabCache) :
    (z.modCache c f).cache d = if d = c then f (z.cache c) else z.cache d := by
  unfold modCache
  dsimp only
  rw [Function.update_apply]

theorem slab_modCache (z : SlabAllocator) (c : Nat) (f : SlabCache → SlabCache) :
    (z.modCache c f).slab = z.slab := rfl

/-! ## Live objects -/

theorem liveOf_cons_self (h : InSlab z a o) :
    liveOf z ((c, o) :: live) c a = o :: liveOf z live c a := by
  unfold liveOf
  rw [List.filter_cons_of_pos (by simp [h]), List.map_cons]

theorem liveOf_cons_other {d b : Nat} (h : ¬ InSlab z b o) :
    liveOf z ((c, o) :: live) d b = liveOf z live d b := by
  unfold liveOf
  rw [List.filter_cons_of_neg (by simp [h])]

theorem liveOf_erase (hmem : (c, o) ∈ live) (h : InSlab z a o) :
    (o :: liveOf z (live.erase (c, o)) c a).Perm (liveOf z live c a) := by
  rw [← liveOf_cons_self h]
  exact ((List.perm_cons_erase hmem).symm.filter _).map _

theorem liveOf_erase_other {d b : Nat} (h : ¬ InSlab z b o) :
    liveOf z (live.erase (c, o)) d b = liveOf z live d b := by
  unfold liveOf
  induction live with
  | nil => rfl
  | cons p live ih =>
      by_cases e : p = (c, o)
      · subst e
        rw [List.erase_cons_head, List.filter_cons_of_neg (by simp [h])]
      · rw [List.erase_cons_tail (by simpa using e)]
        rw [List.filter_cons, List.filter_cons]
        split
        · rw [List.map_cons, List.map_cons, ih]
        · exact ih

/-! ## Taking an object -/

/-- `slab_alloc_obj` on a slab that has a free object. -/
theorem slabAllocObj_eq {t : List Nat} (h : SlabOk z live c a (o :: t)) :
    z.slabAllocObj a = (z.modSlab a fun s =>
      { s with freelist := z.mem.link o, inuse := inc32 s.inuse, free := dec32 s.free }, o) := by
  obtain ⟨ho, hne, _⟩ := h.list
  have hmark := h.mark o List.mem_cons_self
  unfold slabAllocObj
  rw [ho, if_neg hne, if_neg (not_not.mpr hmark)]

/-- The slab and the counters after an object has been taken. -/
def afterTake (z : SlabAllocator) (c a o : Nat) : SlabAllocator :=
  (z.modSlab a fun s =>
      { s with freelist := z.mem.link o, inuse := inc32 s.inuse, free := dec32 s.free }).modCache c
    fun s => { s with numActiveObjs := inc32 s.numActiveObjs, numFreeObjs := dec32 s.numFreeObjs }

/-- Rewriting one descriptor, the counters of its cache and bytes of the slab. -/
theorem oneSlab_mod {m : Memory} {f : Slab → Slab} {g : SlabCache → SlabCache}
    (hf : (f (z.slab a)).mem = (z.slab a).mem ∧ (f (z.slab a)).order = (z.slab a).order ∧
      (f (z.slab a)).magic = (z.slab a).magic)
    (hg : SameSizes (z.cache c) (g (z.cache c)) ∧ (g (z.cache c)).numSlabs = (z.cache c).numSlabs)
    (hm : ∀ x, ¬ InSlab z a x → m x = z.mem x) :
    OneSlab z (({ z with mem := m }.modSlab a f).modCache c g) c a := by
  have hslab : (({ z with mem := m }.modSlab a f).modCache c g).slab a = f (z.slab a) :=
    (slab_modSlab { z with mem := m } a a f).trans (if_pos rfl)
  have hcache : (({ z with mem := m }.modSlab a f).modCache c g).cache c = g (z.cache c) :=
    (cache_modCache ({ z with mem := m }.modSlab a f) c c g).trans (if_pos rfl)
  exact
    { slabs := rfl
      other := fun b hb => (slab_modSlab { z with mem := m } a b f).trans (if_neg hb)
      caches := fun d hd => (cache_modCache ({ z with mem := m }.modSlab a f) c d g).trans (if_neg hd)
      sizes := hcache ▸ hg.1
      count := by rw [hcache]; exact hg.2
      mem := by rw [hslab]; exact hf.1
      order := by rw [hslab]; exact hf.2.1
      magic := by rw [hslab]; exact hf.2.2
      bytes := hm }

theorem oneSlab_afterTake (z : SlabAllocator) (c a o : Nat) : OneSlab z (z.afterTake c a o) c a :=
  oneSlab_mod (m := z.mem) ⟨rfl, rfl, rfl⟩ ⟨⟨rfl, rfl, rfl⟩, rfl⟩ (fun _ _ => rfl)

/-- A slab's counters are within those of its cache, which do not wrap. -/
theorem Objects.counters_fit (h : Objects z cs live fl) (ha : (c, a) ∈ z.slabs) :
    (z.slab a).inuse ≤ (z.cache c).numActiveObjs ∧ (z.slab a).free ≤ (z.cache c).numFreeObjs ∧
      (z.cache c).numActiveObjs + (z.cache c).numFreeObjs < wordSize := by
  have hlt := h.total_lt (h.owner _ ha)
  obtain ⟨_, hact, hfree⟩ := h.count c (h.owner _ ha)
  rw [hact, hfree]
  refine ⟨le_sum_of_mem (fun a => (z.slab a).inuse) (mem_slabsOf.mpr ha),
    le_sum_of_mem (fun a => (z.slab a).free) (mem_slabsOf.mpr ha), ?_⟩
  rw [Nat.add_comm]
  exact hlt

theorem Objects.take {t : List Nat} (h : Objects z cs live fl) (ha : (c, a) ∈ z.slabs)
    (hfl : fl a = o :: t) :
    Objects (z.afterTake c a o) cs ((c, o) :: live) (Function.update fl a t) := by
  have hc : c ∈ cs := h.owner _ ha
  have hok : SlabOk z live c a (o :: t) := hfl ▸ h.slab _ ha
  have hcache := h.cache c hc
  have hin := (slot_inSlab hcache hok.order (hok.fl_slot List.mem_cons_self)).1
  have hnew : (c, o) ∉ live := by
    intro hm
    have hnd := hok.nodup hcache
    rw [List.cons_append] at hnd
    exact (List.nodup_cons.mp hnd).1 (List.mem_append_right t (mem_liveOf.mpr ⟨hm, hin⟩))
  have hslab : (z.afterTake c a o).slab a = { z.slab a with
      freelist := z.mem.link o, inuse := inc32 (z.slab a).inuse, free := dec32 (z.slab a).free } := by
    rw [afterTake, slab_modCache, slab_modSlab, if_pos rfl]
  have hcs : (z.afterTake c a o).cache c = { z.cache c with
      numActiveObjs := inc32 (z.cache c).numActiveObjs
      numFreeObjs := dec32 (z.cache c).numFreeObjs } :=
    (cache_modCache _ c c _).trans (if_pos rfl)
  -- neither counter wraps
  have htot := hok.total
  have hfree := hok.free
  rw [List.length_cons] at hfree
  obtain ⟨hi, hf, hlt⟩ := h.counters_fit ha
  have hi' : inc32 (z.slab a).inuse = (z.slab a).inuse + 1 := inc32_eq (by omega)
  have hf' : dec32 (z.slab a).free = t.length := by
    rw [dec32_eq (by omega)]
    omega
  have hu := oneSlab_afterTake z c a o
  have hlive' : liveOf (z.afterTake c a o) ((c, o) :: live) c a = o :: liveOf z live c a := by
    rw [hu.liveOf, liveOf_cons_self hin]
  refine h.oneSlab ha hu ?_ (fun d b hb hne => ?_)
    (List.nodup_cons.mpr ⟨hnew, h.live_nodup⟩) (fun p hp => ?_) ?_ ?_
  · refine ⟨hok.nonnull, ?_, ?_, ?_, ?_, ?_, ?_, ?_, ?_, ?_⟩
    · rw [hslab]
      exact hok.base
    · rw [hslab]
      exact hok.space
    · rw [hslab, hcs]
      exact hok.order
    · rw [hslab]
      exact hok.magic
    · rw [hslab]
      exact hok.list.2.2
    · exact fun x hx => hok.mark x (List.mem_cons_of_mem o hx)
    · rw [hlive', hslab, hcs]
      exact List.perm_middle.trans hok.slots
    · rw [hslab]
      exact hf'
    · rw [hlive', hslab, List.length_cons, ← hok.inuse]
      exact hi'
  · exact liveOf_cons_other (fun hb' => hne (h.slab_unique ha hb hin hb'))
  · rcases List.mem_cons.mp hp with rfl | hp
    · exact Or.inr ⟨rfl, hin⟩
    · exact Or.inl hp
  · rw [hslab, hcs]
    dsimp only
    rw [hi', inc32_eq (by omega)]
    omega
  · rw [hslab, hcs]
    dsimp only
    rw [hf', dec32_eq (by omega)]
    omega

/-! ## Giving an object back -/

theorem putsFree_putObj : Memory.PutsFree putObj slabMagic where
  link := by
    intro m a v hv
    unfold putObj Memory.link
    rw [Memory.load32_store32_of_disjoint (by omega), Memory.load32_store32]
    exact Nat.mod_eq_of_lt hv
  mark := by
    intro m a v
    unfold putObj Memory.mark
    rw [Memory.load32_store32]
    rfl
  other := by
    intro m a v c hc
    unfold putObj
    rw [Memory.store32_eq_of_outside (by omega), Memory.store32_eq_of_outside (by omega)]

/-- The slab, its objects and the counters after an object has been given
back. -/
def afterGive (z : SlabAllocator) (c a o : Nat) : SlabAllocator :=
  (z.slabFreeObj a o).modCache c
    fun s => { s with numActiveObjs := dec32 s.numActiveObjs, numFreeObjs := inc32 s.numFreeObjs }

/-- The two words `slab_free_obj` writes lie in the slab. -/
theorem outside_obj (hcache : CacheOk (z.cache c)) (hord : (z.slab a).order = (z.cache c).gfpOrder)
    (ho : o ∈ slots (z.slab a).mem (z.cache c).objSize (z.cache c).numObjsPerSlab) {x : Nat}
    (hx : ¬ InSlab z a x) : x < o ∨ o + 8 ≤ x := by
  obtain ⟨hin, hend⟩ := slot_inSlab hcache hord ho
  have hsize := hcache.objSize
  unfold sizeofSlabObj at hsize
  unfold InSlab at hin hx
  omega

theorem oneSlab_afterGive (h : Objects z cs live fl) (ha : (c, a) ∈ z.slabs) (ho : (c, o) ∈ live)
    (hin : InSlab z a o) : OneSlab z (z.afterGive c a o) c a := by
  have hok : SlabOk z live c a (fl a) := h.slab _ ha
  have hslot := hok.live_slot (mem_liveOf.mpr ⟨ho, hin⟩)
  refine oneSlab_mod (m := putObj z.mem o (z.slab a).freelist)
    (f := fun s => { s with freelist := o, inuse := dec32 s.inuse, free := inc32 s.free })
    (g := fun s => { s with
      numActiveObjs := dec32 s.numActiveObjs, numFreeObjs := inc32 s.numFreeObjs })
    ⟨rfl, rfl, rfl⟩ ⟨⟨rfl, rfl, rfl⟩, rfl⟩ (fun x hx => ?_)
  exact putsFree_putObj.other z.mem o _ x
    (outside_obj (h.cache c (h.owner _ ha)) hok.order hslot hx)

theorem SlabOk.freelist_lt {fl : List Nat} (h : SlabOk z live c a fl) (hcache : CacheOk (z.cache c)) :
    (z.slab a).freelist < wordSize := by
  by_cases hz : (z.slab a).freelist = 0
  · rw [hz]
    decide
  · obtain ⟨t, ht, _⟩ := h.list.exists_cons hz
    have hin := (slot_inSlab hcache h.order (h.fl_slot (by rw [ht]; exact List.mem_cons_self))).1
    have hsp := h.space
    unfold InSlab at hin
    omega

/-- The free objects keep their words when a live one is marked free: none of
them is that one. -/
theorem SlabOk.putObj_keeps {fl : List Nat} (h : SlabOk z live c a fl) (hcache : CacheOk (z.cache c))
    (ho : o ∈ liveOf z live c a) (v : Nat) : ∀ x ∈ fl,
      (putObj z.mem o v).link x = z.mem.link x ∧ (putObj z.mem o v).mark x = z.mem.mark x := by
  intro x hx
  have hne : x ≠ o := by
    rintro rfl
    exact (List.nodup_append.mp (h.nodup hcache)).2.2 x hx x ho rfl
  have hap := slots_apart (h.fl_slot hx) (h.live_slot ho)
  have hsize := hcache.objSize
  unfold sizeofSlabObj at hsize
  unfold Memory.Apart at hap
  exact Memory.link_mark_congr (fun y h₁ h₂ => putsFree_putObj.other z.mem o v y (by omega))

/-- **An object is given back** to the front of its slab's list. -/
theorem Objects.give (h : Objects z cs live fl) (ha : (c, a) ∈ z.slabs) (ho : (c, o) ∈ live)
    (hin : InSlab z a o) :
    Objects (z.afterGive c a o) cs (live.erase (c, o)) (Function.update fl a (o :: fl a)) := by
  have hc : c ∈ cs := h.owner _ ha
  have hok : SlabOk z live c a (fl a) := h.slab _ ha
  have hcache := h.cache c hc
  have hkeep := hok.putObj_keeps hcache (mem_liveOf.mpr ⟨ho, hin⟩) (z.slab a).freelist
  have hslab : (z.afterGive c a o).slab a = { z.slab a with
      freelist := o, inuse := dec32 (z.slab a).inuse, free := inc32 (z.slab a).free } := by
    rw [afterGive, slab_modCache, slabFreeObj, slab_modSlab, if_pos rfl]
  have hcs : (z.afterGive c a o).cache c = { z.cache c with
      numActiveObjs := dec32 (z.cache c).numActiveObjs
      numFreeObjs := inc32 (z.cache c).numFreeObjs } :=
    (cache_modCache _ c c _).trans (if_pos rfl)
  have hmem : (z.afterGive c a o).mem = putObj z.mem o (z.slab a).freelist := rfl
  have hu : OneSlab z (z.afterGive c a o) c a := oneSlab_afterGive h ha ho hin
  -- neither counter wraps
  have hperm := liveOf_erase ho hin
  have hlen := hperm.length_eq
  rw [List.length_cons] at hlen
  have hinuse := hok.inuse
  obtain ⟨hi, hf, hlt⟩ := h.counters_fit ha
  have hf' : inc32 (z.slab a).free = (z.slab a).free + 1 := inc32_eq (by omega)
  have hi' : dec32 (z.slab a).inuse = (liveOf z (live.erase (c, o)) c a).length := by
    rw [dec32_eq (by omega)]
    omega
  have hlive' : liveOf (z.afterGive c a o) (live.erase (c, o)) c a =
      liveOf z (live.erase (c, o)) c a := hu.liveOf c a
  have ho0 : o ≠ 0 := by
    have := hok.base
    unfold InSlab at hin
    omega
  refine h.oneSlab ha hu ?_ (fun d b hb hne => ?_) (h.live_nodup.erase _)
    (fun p hp => Or.inl (List.mem_of_mem_erase hp)) ?_ ?_
  · refine ⟨hok.nonnull, ?_, ?_, ?_, ?_, ?_, ?_, ?_, ?_, ?_⟩
    · rw [hslab]
      exact hok.base
    · rw [hslab]
      exact hok.space
    · rw [hslab, hcs]
      exact hok.order
    · rw [hslab]
      exact hok.magic
    · rw [hslab, hmem]
      exact hok.list.push ho0 (putsFree_putObj.link z.mem o _ (hok.freelist_lt hcache))
        (fun x hx => (hkeep x hx).1)
    · intro x hx
      rw [hmem]
      rcases List.mem_cons.mp hx with rfl | hx
      · exact putsFree_putObj.mark z.mem x _
      · rw [(hkeep x hx).2]
        exact hok.mark x hx
    · rw [hlive', hslab, hcs]
      refine List.Perm.trans ?_ hok.slots
      rw [List.cons_append]
      exact List.perm_middle.symm.trans (hperm.append_left (fl a))
    · rw [hslab, List.length_cons, ← hok.free]
      exact hf'
    · rw [hlive', hslab]
      exact hi'
  · exact liveOf_erase_other (fun hb' => hne (h.slab_unique ha hb hin hb'))
  · rw [hslab, hcs]
    dsimp only
    rw [hi', dec32_eq (by omega)]
    omega
  · rw [hslab, hcs]
    dsimp only
    rw [hf', inc32_eq (by omega)]
    omega

/-! ## Making a slab -/

/-- The new slab and the counters, before it is put on a list. -/
def afterCreate (z : SlabAllocator) (c : Nat) (b : SlabMem) : SlabAllocator :=
  (z.slabCreate c (some b)).1.modCache c fun s => { s with numSlabs := inc32 s.numSlabs }

/-- The loop of `slab_create`. -/
def createLoop (z : SlabAllocator) (c : Nat) (b : SlabMem) : Memory × Nat :=
  Memory.thread putObj (z.cache c).objSize (z.cache c).numObjsPerSlab z.mem b.mem 0

theorem slabs_afterCreate (z : SlabAllocator) (c : Nat) (b : SlabMem) :
    (z.afterCreate c b).slabs = (c, b.slab) :: z.slabs := rfl

theorem mem_afterCreate (z : SlabAllocator) (c : Nat) (b : SlabMem) :
    (z.afterCreate c b).mem = (createLoop z c b).1 := rfl

theorem slab_afterCreate_self (z : SlabAllocator) (c : Nat) (b : SlabMem) :
    (z.afterCreate c b).slab b.slab =
      { next := 0
        prev := 0
        mem := b.mem
        inuse := 0
        free := (z.cache c).numObjsPerSlab
        freelist := (createLoop z c b).2
        size := (z.cache c).objSize
        order := (z.cache c).gfpOrder
        magic := slabMagic } :=
  Function.update_self b.slab _ z.slab

theorem slab_afterCreate_of_ne (z : SlabAllocator) (c : Nat) {b : SlabMem} (h : a ≠ b.slab) :
    (z.afterCreate c b).slab a = z.slab a :=
  Function.update_of_ne h _ z.slab

theorem cache_afterCreate_self (z : SlabAllocator) (c : Nat) (b : SlabMem) :
    (z.afterCreate c b).cache c = { z.cache c with
      numFreeObjs := add32 (z.cache c).numFreeObjs (z.cache c).numObjsPerSlab
      numSlabs := inc32 (z.cache c).numSlabs } := by
  unfold afterCreate slabCreate
  dsimp only
  rw [cache_modCache, if_pos rfl, cache_modCache, if_pos rfl]

theorem cache_afterCreate_of_ne (z : SlabAllocator) {c d : Nat} (b : SlabMem) (h : d ≠ c) :
    (z.afterCreate c b).cache d = z.cache d := by
  unfold afterCreate slabCreate
  dsimp only
  rw [cache_modCache, if_neg h, cache_modCache, if_neg h]

theorem sizes_afterCreate (z : SlabAllocator) (c d : Nat) (b : SlabMem) :
    SameSizes (z.cache d) ((z.afterCreate c b).cache d) := by
  by_cases e : d = c
  · subst e
    rw [cache_afterCreate_self]
    exact ⟨rfl, rfl, rfl⟩
  · rw [cache_afterCreate_of_ne z b e]
    exact ⟨rfl, rfl, rfl⟩

/-- What the loop leaves: all slots on the list, and no byte touched outside
them. -/
theorem createLoop_spec (hcache : CacheOk (z.cache c)) {b : SlabMem} (hb : b.mem ≠ 0)
    (hend : b.mem + blockSize (z.cache c).gfpOrder < wordSize) :
    Sll 0 (createLoop z c b).1.link (createLoop z c b).2
        (slots b.mem (z.cache c).objSize (z.cache c).numObjsPerSlab).reverse ∧
      (∀ o ∈ (slots b.mem (z.cache c).objSize (z.cache c).numObjsPerSlab).reverse,
        (createLoop z c b).1.mark o = slabMagic) ∧
      ∀ x, x < b.mem ∨ b.mem + blockSize (z.cache c).gfpOrder ≤ x →
        (createLoop z c b).1 x = z.mem x := by
  have hfit := hcache.fit
  obtain ⟨h₁, h₂, h₃⟩ := Memory.thread_spec putsFree_putObj hcache.objSize
    (n := (z.cache c).numObjsPerSlab) (m := z.mem) (p := b.mem) (h := 0) (l := [])
    (by unfold wordSize at hend; omega) hb rfl nofun nofun
  rw [List.append_nil] at h₁ h₂
  exact ⟨h₁, h₂, fun x hx => h₃ x (by omega)⟩

theorem slabsOf_cons (z : SlabAllocator) (c : Nat) (b : SlabMem) :
    slabsOf (z.afterCreate c b) c = b.slab :: slabsOf z c := by
  unfold slabsOf
  rw [slabs_afterCreate, List.filter_cons_of_pos (by simp), List.map_cons]

theorem slabsOf_cons_of_ne (z : SlabAllocator) {c d : Nat} (b : SlabMem) (h : d ≠ c) :
    slabsOf (z.afterCreate c b) d = slabsOf z d := by
  unfold slabsOf
  rw [slabs_afterCreate, List.filter_cons_of_neg (by simpa using h.symm)]

/-- The descriptors of the old slabs stay. -/
theorem slab_afterCreate_old {b : SlabMem} (hb : SlabHeap.SlabMemOk z c (some b)) {p : Nat × Nat}
    (hp : p ∈ z.slabs) : (z.afterCreate c b).slab p.2 = z.slab p.2 := by
  obtain ⟨_, hnew, _⟩ := hb
  exact slab_afterCreate_of_ne z c (fun e => hnew (List.mem_map.mpr ⟨p, hp, e⟩))

theorem sameBody_afterCreate {b : SlabMem} (hb : SlabHeap.SlabMemOk z c (some b)) {p : Nat × Nat}
    (hp : p ∈ z.slabs) : SameBody (z.slab p.2) ((z.afterCreate c b).slab p.2) := by
  rw [slab_afterCreate_old hb hp]
  exact ⟨rfl, rfl, rfl, rfl, rfl, rfl⟩

/-- No live object lies in the new memory. -/
theorem Objects.liveOf_new (h : Objects z cs live fl) {b : SlabMem}
    (hb : SlabHeap.SlabMemOk z c (some b)) : liveOf (z.afterCreate c b) live c b.slab = [] := by
  obtain ⟨_, _, _, _, hapart⟩ := hb
  have hself := slab_afterCreate_self z c b
  refine List.eq_nil_iff_forall_not_mem.mpr (fun o ho => ?_)
  obtain ⟨hm, hin⟩ := mem_liveOf.mp ho
  obtain ⟨a, ha, hin'⟩ := h.live_slab _ hm
  have hap := hapart _ ha
  unfold InSlab at hin hin'
  rw [hself] at hin
  unfold SlabHeap.slabLen at hap
  dsimp only at hin hin' hap
  omega

theorem Objects.regions_afterCreate (h : Objects z cs live fl) {b : SlabMem}
    (hb : SlabHeap.SlabMemOk z c (some b)) :
    Disjoints (fun p => ((z.afterCreate c b).slab p.2).mem)
      (SlabHeap.slabLen (z.afterCreate c b)) (z.afterCreate c b).slabs := by
  obtain ⟨_, _, _, _, hapart⟩ := id hb
  rw [slabs_afterCreate]
  refine List.pairwise_cons.mpr ⟨fun p hp => ?_, ?_⟩
  · unfold SlabHeap.slabLen
    dsimp only
    rw [slab_afterCreate_self, slab_afterCreate_old hb hp]
    exact hapart p hp
  · refine h.regions.imp_of_mem (fun {p q} hp hq hpq => ?_)
    unfold SlabHeap.slabLen at hpq ⊢
    dsimp only
    rw [slab_afterCreate_old hb hp, slab_afterCreate_old hb hq]
    exact hpq

/-- The new slab and the old ones. -/
theorem Objects.slab_afterCreate (h : Objects z cs live fl) (hc : c ∈ cs) {b : SlabMem}
    (hb : SlabHeap.SlabMemOk z c (some b)) {p : Nat × Nat} (hp : p ∈ (z.afterCreate c b).slabs) :
    SlabOk (z.afterCreate c b) live p.1 p.2 (Function.update fl b.slab
      (slots b.mem (z.cache c).objSize (z.cache c).numObjsPerSlab).reverse p.2) := by
  obtain ⟨hb0, hnew, hmem0, hend, hapart⟩ := id hb
  obtain ⟨hlist, hmark, hout⟩ := createLoop_spec (h.cache c hc) hmem0 hend
  have hself := slab_afterCreate_self z c b
  have hlive := h.liveOf_new hb
  rw [slabs_afterCreate] at hp
  rcases List.mem_cons.mp hp with rfl | hp
  · dsimp only
    rw [Function.update_self]
    refine ⟨hb0, ?_, ?_, ?_, ?_, ?_, ?_, ?_, ?_, ?_⟩
    · rw [hself]
      exact hmem0
    · rw [hself]
      exact hend
    · rw [hself, cache_afterCreate_self]
    · rw [hself]
    · rw [hself, mem_afterCreate]
      exact hlist
    · rw [mem_afterCreate]
      exact hmark
    · rw [hlive, hself, cache_afterCreate_self, List.append_nil]
      exact List.reverse_perm _
    · rw [hself, List.length_reverse, length_slots]
    · rw [hself, hlive]
      rfl
  · rw [Function.update_of_ne (fun e => hnew (List.mem_map.mpr ⟨p, hp, e⟩))]
    have hok := h.slab p hp
    have hbody := sameBody_afterCreate hb hp
    refine hok.congr hbody (sizes_afterCreate z c p.1 b) (fun o ho => ?_) (liveOf_congr hbody)
    -- a free object of another slab lies outside the new memory
    obtain ⟨hin, hfin⟩ := slot_inSlab (h.cache p.1 (h.owner p hp)) hok.order (hok.fl_slot ho)
    have hsize := (h.cache p.1 (h.owner p hp)).objSize
    have hap := hapart p hp
    unfold sizeofSlabObj at hsize
    unfold InSlab at hin
    unfold SlabHeap.slabLen at hap
    rw [mem_afterCreate]
    exact Memory.link_mark_congr (fun x _ _ => hout x (by omega))

/-- With the new slab there are still fewer objects, and fewer slabs, than
addresses. -/
theorem Objects.room_afterCreate (h : Objects z cs live fl) (hc : c ∈ cs) {b : SlabMem}
    (hb : SlabHeap.SlabMemOk z c (some b)) :
    (slabsOf z c).length + 1 < wordSize ∧
      ((slabsOf z c).map (fun a => (z.slab a).free)).sum + (z.cache c).numObjsPerSlab < wordSize := by
  have hcache := h.cache c hc
  have hdis : Disjoints (fun p => ((z.afterCreate c b).slab p).mem)
      (fun p => blockSize ((z.afterCreate c b).slab p).order) (slabsOf (z.afterCreate c b) c) :=
    List.pairwise_map.mpr ((h.regions_afterCreate hb).sublist List.filter_sublist)
  have hlt : ((slabsOf (z.afterCreate c b) c).map
      (fun _ => (z.cache c).numObjsPerSlab)).sum < wordSize := by
    refine sum_weights_lt hdis (by decide) (fun a ha => ?_)
    have hok := h.slab_afterCreate hc hb (mem_slabsOf.mp ha)
    refine ⟨?_, hok.space⟩
    rw [hok.order, cache_afterCreate_self]
    exact hcache.num_le
  have hfree : ((slabsOf z c).map (fun a => (z.slab a).free)).sum ≤
      ((slabsOf z c).map (fun _ => (z.cache c).numObjsPerSlab)).sum := by
    refine List.sum_le_sum (fun a ha => ?_)
    have htotal := (h.slab _ (mem_slabsOf.mp ha)).total
    dsimp only at htotal
    omega
  have hlen : (slabsOf z c).length ≤
      ((slabsOf z c).map (fun _ => (z.cache c).numObjsPerSlab)).sum := by
    rw [List.map_const', List.sum_replicate_nat]
    exact Nat.le_mul_of_pos_right _ hcache.some
  have hsome := hcache.some
  rw [slabsOf_cons, List.map_cons, List.sum_cons] at hlt
  omega

theorem Objects.counts_afterCreate (h : Objects z cs live fl) (hc : c ∈ cs) {b : SlabMem}
    (hb : SlabHeap.SlabMemOk z c (some b)) {d : Nat} (hd : d ∈ cs) :
    Counts (z.afterCreate c b) d := by
  obtain ⟨h₁, h₂, h₃⟩ := h.count d hd
  have hself := slab_afterCreate_self z c b
  have hsame : ∀ b' ∈ slabsOf z d, (z.afterCreate c b).slab b' = z.slab b' :=
    fun b' hb' => slab_afterCreate_old hb (mem_slabsOf.mp hb')
  have hinuse := List.map_congr_left (fun b' hb' => congrArg Slab.inuse (hsame b' hb'))
  have hfree := List.map_congr_left (fun b' hb' => congrArg Slab.free (hsame b' hb'))
  by_cases e : d = c
  · subst e
    obtain ⟨hlen, hroom⟩ := h.room_afterCreate hd hb
    refine ⟨?_, ?_, ?_⟩
    · rw [slabsOf_cons, List.length_cons, cache_afterCreate_self, ← h₁]
      exact inc32_eq (by omega)
    · rw [slabsOf_cons, List.map_cons, List.sum_cons, hself, cache_afterCreate_self, hinuse,
        Nat.zero_add]
      exact h₂
    · rw [slabsOf_cons, List.map_cons, List.sum_cons, hself, cache_afterCreate_self, hfree]
      dsimp only
      rw [add32_eq (by omega), h₃]
      exact Nat.add_comm _ _
  · refine ⟨?_, ?_, ?_⟩
    · rw [slabsOf_cons_of_ne z b e, cache_afterCreate_of_ne z b e]
      exact h₁
    · rw [slabsOf_cons_of_ne z b e, cache_afterCreate_of_ne z b e, hinuse]
      exact h₂
    · rw [slabsOf_cons_of_ne z b e, cache_afterCreate_of_ne z b e, hfree]
      exact h₃

/-- **A slab is made.**  All its objects are free. -/
theorem Objects.create (h : Objects z cs live fl) (hc : c ∈ cs) {b : SlabMem}
    (hb : SlabHeap.SlabMemOk z c (some b)) :
    Objects (z.afterCreate c b) cs live (Function.update fl b.slab
      (slots b.mem (z.cache c).objSize (z.cache c).numObjsPerSlab).reverse) := by
  have hnew := hb.2.1
  refine ⟨fun d hd => (h.cache d hd).congr (sizes_afterCreate z c d b), ?_, ?_,
    h.regions_afterCreate hb, fun p hp => h.slab_afterCreate hc hb hp,
    fun d hd => h.counts_afterCreate hc hb hd, h.live_nodup, ?_⟩
  · rw [slabs_afterCreate]
    intro p hp
    rcases List.mem_cons.mp hp with rfl | hp
    · exact hc
    · exact h.owner p hp
  · rw [slabs_afterCreate, List.map_cons]
    exact List.nodup_cons.mpr ⟨hnew, h.nodup⟩
  · intro p hp
    obtain ⟨a, ha, hin⟩ := h.live_slab p hp
    exact ⟨a, List.mem_cons_of_mem _ ha, (inSlab_congr (sameBody_afterCreate hb ha)).mpr hin⟩

/-! ## Destroying a slab -/

theorem slabDestroy_eq {fl : List Nat} (h : SlabOk z live c a fl) :
    z.slabDestroy c a = { z with
      slabs := z.slabs.erase (c, a)
      cache := Function.update z.cache c { z.cache c with
        numFreeObjs := sub32 (z.cache c).numFreeObjs (z.slab a).free
        numSlabs := dec32 (z.cache c).numSlabs } } := by
  unfold slabDestroy
  rw [if_neg (not_or.mpr ⟨h.nonnull, not_not.mpr h.magic⟩)]
  unfold modCache
  dsimp only
  rw [Function.update_self, Function.update_idem]

/-- The slabs of a cache when one slab has gone. -/
theorem slabsOf_erase (hs : z'.slabs = z.slabs.erase (c, a)) (ha : (c, a) ∈ z.slabs) (d : Nat) :
    (if d = c then a :: slabsOf z' d else slabsOf z' d).Perm (slabsOf z d) := by
  unfold slabsOf
  rw [hs]
  have hp := ((List.perm_cons_erase ha).symm.filter (fun p => decide (p.1 = d))).map Prod.snd
  by_cases e : d = c
  · rw [if_pos e]
    rwa [List.filter_cons_of_pos (by simpa using e.symm), List.map_cons] at hp
  · rw [if_neg e]
    rwa [List.filter_cons_of_neg (by simpa using Ne.symm e)] at hp

/-- The counters of the cache whose slab goes. -/
theorem Counts.erase_self (h : Counts z c) (hslabs : z'.slabs = z.slabs.erase (c, a))
    (hslab : z'.slab = z.slab) (ha : (c, a) ∈ z.slabs) (hinuse : (z.slab a).inuse = 0)
    (hlt : (z.cache c).numActiveObjs + (z.cache c).numFreeObjs < wordSize)
    (hcache : z'.cache c = { z.cache c with
      numFreeObjs := sub32 (z.cache c).numFreeObjs (z.slab a).free
      numSlabs := dec32 (z.cache c).numSlabs }) : Counts z' c := by
  obtain ⟨h₁, h₂, h₃⟩ := h
  have hp := slabsOf_erase hslabs ha c
  rw [if_pos rfl] at hp
  have hlen := hp.length_eq
  have hact := (hp.map (fun a => (z.slab a).inuse)).sum_eq
  have hfree := (hp.map (fun a => (z.slab a).free)).sum_eq
  rw [List.length_cons] at hlen
  rw [List.map_cons, List.sum_cons] at hact hfree
  refine ⟨?_, ?_, ?_⟩
  · rw [hcache]
    dsimp only
    rw [dec32_eq (by omega)]
    omega
  · rw [hcache, hslab]
    dsimp only
    omega
  · rw [hcache, hslab]
    dsimp only
    rw [sub32_eq (by omega) (by omega)]
    omega

/-- The counters of the other caches. -/
theorem Counts.erase_of_ne {d : Nat} (h : Counts z d) (hslabs : z'.slabs = z.slabs.erase (c, a))
    (hslab : z'.slab = z.slab) (ha : (c, a) ∈ z.slabs) (hd : d ≠ c)
    (hcache : z'.cache d = z.cache d) : Counts z' d := by
  obtain ⟨h₁, h₂, h₃⟩ := h
  have hp := slabsOf_erase hslabs ha d
  rw [if_neg hd] at hp
  refine ⟨?_, ?_, ?_⟩
  · rw [hcache]
    exact h₁.trans hp.length_eq.symm
  · rw [hcache, hslab]
    exact h₂.trans (hp.map (fun a => (z.slab a).inuse)).sum_eq.symm
  · rw [hcache, hslab]
    exact h₃.trans (hp.map (fun a => (z.slab a).free)).sum_eq.symm

/-- **A slab without live objects is destroyed.** -/
theorem Objects.destroy (h : Objects z cs live fl) (ha : (c, a) ∈ z.slabs)
    (hlive : liveOf z live c a = []) : Objects (z.slabDestroy c a) cs live fl := by
  have hc : c ∈ cs := h.owner _ ha
  have hok := h.slab _ ha
  have hslabs : (z.slabDestroy c a).slabs = z.slabs.erase (c, a) := by
    rw [slabDestroy_eq hok]
  have hslab : (z.slabDestroy c a).slab = z.slab := by
    rw [slabDestroy_eq hok]
  have hmem : (z.slabDestroy c a).mem = z.mem := by
    rw [slabDestroy_eq hok]
  have hcache : (z.slabDestroy c a).cache c = { z.cache c with
      numFreeObjs := sub32 (z.cache c).numFreeObjs (z.slab a).free
      numSlabs := dec32 (z.cache c).numSlabs } := by
    rw [slabDestroy_eq hok]
    exact Function.update_self c _ z.cache
  have hother : ∀ d, d ≠ c → (z.slabDestroy c a).cache d = z.cache d := by
    intro d hd
    rw [slabDestroy_eq hok]
    exact Function.update_of_ne hd _ z.cache
  generalize z.slabDestroy c a = z' at hslabs hslab hmem hcache hother ⊢
  have hsizes : ∀ d, SameSizes (z.cache d) (z'.cache d) := by
    intro d
    by_cases e : d = c
    · subst e
      rw [hcache]
      exact ⟨rfl, rfl, rfl⟩
    · rw [hother d e]
      exact ⟨rfl, rfl, rfl⟩
  have hbody : ∀ b, SameBody (z.slab b) (z'.slab b) := by
    intro b
    rw [hslab]
    exact ⟨rfl, rfl, rfl, rfl, rfl, rfl⟩
  have hsub : ∀ p ∈ z'.slabs, p ∈ z.slabs := by
    intro p hp
    rw [hslabs] at hp
    exact List.mem_of_mem_erase hp
  refine ⟨fun d hd => (h.cache d hd).congr (hsizes d), fun p hp => h.owner p (hsub p hp), ?_, ?_, ?_,
    fun d hd => ?_, h.live_nodup, ?_⟩
  · rw [hslabs]
    exact h.nodup.sublist (List.erase_sublist.map _)
  · rw [hslabs]
    refine List.Pairwise.imp (fun {p q} hpq => ?_) (h.regions.sublist List.erase_sublist)
    unfold SlabHeap.slabLen at hpq ⊢
    rw [hslab]
    exact hpq
  · intro p hp
    exact (h.slab p (hsub p hp)).congr (hbody p.2) (hsizes p.1)
      (fun o _ => by rw [hmem]; exact ⟨rfl, rfl⟩) (liveOf_congr (hbody p.2))
  · by_cases e : d = c
    · subst e
      have hinuse : (z.slab a).inuse = 0 := by
        rw [hok.inuse, hlive]
        rfl
      exact (h.count d hd).erase_self hslabs hslab ha hinuse (h.counters_fit ha).2.2 hcache
    · exact (h.count d hd).erase_of_ne hslabs hslab ha e (hother d e)
  · intro p hp
    obtain ⟨b, hb, hin⟩ := h.live_slab p hp
    refine ⟨b, ?_, (inSlab_congr (hbody b)).mpr hin⟩
    rw [hslabs]
    refine (List.mem_erase_of_ne (fun e => ?_)).mpr hb
    -- an object of the slab that has gone would have been live
    have hpc : p.1 = c := congrArg Prod.fst e
    have hba : b = a := congrArg Prod.snd e
    have hm : p.2 ∈ liveOf z live c a := mem_liveOf.mpr ⟨hpc ▸ hp, hba ▸ hin⟩
    rw [hlive] at hm
    exact nomatch hm

/-! ## New caches and clients' writes -/

/-- A slab is always one block of `MIN_BLOCK_SIZE`. -/
theorem slabSizeLoop_eq (objSize fuel : Nat) : slabSizeLoop objSize fuel minBlockSize = minBlockSize := by
  cases fuel with
  | zero => rfl
  | succ fuel =>
      unfold slabSizeLoop
      exact if_neg (fun h => Nat.lt_irrefl _ h.2)

theorem CacheOk.newCache {next : Nat} {size align flags : UInt32}
    (hsize : sizeofSlabObj ≤ roundUp size align)
    (hsome : 0 < (newCache 0 size align 0).numObjsPerSlab) :
    CacheOk (newCache next size align flags) where
  objSize := hsize
  some := hsome
  fit := by
    unfold SlabAllocator.newCache
    dsimp only
    rw [slabSizeLoop_eq]
    exact Nat.div_mul_le_self minBlockSize (roundUp size align)

theorem Objects.cacheCreate (h : Objects z cs live fl) (hc : c ∉ cs) {s : SlabCache} (hs : CacheOk s)
    (hzero : s.numSlabs = 0 ∧ s.numActiveObjs = 0 ∧ s.numFreeObjs = 0) (chain : Nat) :
    Objects { z with cache := Function.update z.cache c s, cacheChain := chain } (c :: cs) live fl := by
  have hold : ∀ d ∈ cs, Function.update z.cache c s d = z.cache d :=
    fun d hd => Function.update_of_ne (fun e : d = c => hc (e ▸ hd)) _ _
  refine ⟨fun d hd => ?_, fun p hp => List.mem_cons_of_mem c (h.owner p hp), h.nodup, h.regions, ?_,
    fun d hd => ?_, h.live_nodup, h.live_slab⟩
  · rcases List.mem_cons.mp hd with rfl | hd
    · dsimp only
      rw [Function.update_self]
      exact hs
    · dsimp only
      rw [hold d hd]
      exact h.cache d hd
  · intro p hp
    refine (h.slab p hp).congr ⟨rfl, rfl, rfl, rfl, rfl, rfl⟩ ?_ (fun o _ => ⟨rfl, rfl⟩) rfl
    dsimp only
    rw [hold p.1 (h.owner p hp)]
    exact ⟨rfl, rfl, rfl⟩
  · rcases List.mem_cons.mp hd with rfl | hd
    · -- the new cache has no slab yet
      have hnil : slabsOf z d = [] :=
        List.eq_nil_iff_forall_not_mem.mpr (fun a ha => hc (h.owner _ (mem_slabsOf.mp ha)))
      have hnil' : slabsOf { z with cache := Function.update z.cache d s, cacheChain := chain } d = [] :=
        hnil
      refine ⟨?_, ?_, ?_⟩
      · dsimp only
        rw [hnil', Function.update_self]
        exact hzero.1
      · dsimp only
        rw [hnil', Function.update_self]
        exact hzero.2.1
      · dsimp only
        rw [hnil', Function.update_self]
        exact hzero.2.2
    · obtain ⟨h₁, h₂, h₃⟩ := h.count d hd
      refine ⟨?_, ?_, ?_⟩
      · dsimp only
        rw [hold d hd]
        exact h₁
      · dsimp only
        rw [hold d hd]
        exact h₂
      · dsimp only
        rw [hold d hd]
        exact h₃

/-- A byte a client may write lies in no free object. -/
theorem Objects.outside_free (h : Objects z cs live fl) {x : Nat}
    (hx : (∃ l ∈ live, l.2 ≤ x ∧ x < l.2 + (z.cache l.1).objSize) ∨
      ∀ p ∈ z.slabs, x < (z.slab p.2).mem ∨ (z.slab p.2).mem + SlabHeap.slabLen z p ≤ x)
    {p : Nat × Nat} (hp : p ∈ z.slabs) (ho : o ∈ fl p.2) : x < o ∨ o + 8 ≤ x := by
  have hok := h.slab p hp
  have hcache := h.cache p.1 (h.owner p hp)
  obtain ⟨hin, hend⟩ := slot_inSlab hcache hok.order (hok.fl_slot ho)
  have hsize := hcache.objSize
  unfold sizeofSlabObj at hsize
  unfold InSlab at hin
  rcases hx with ⟨l, hl, hlo, hhi⟩ | hout
  · obtain ⟨b, hb, hinb⟩ := h.live_slab l hl
    have hokb := h.slab _ hb
    have hlive : l.2 ∈ liveOf z live l.1 b := mem_liveOf.mpr ⟨hl, hinb⟩
    by_cases e : (l.1, b) = p
    · -- a live object of the same slab is another slot
      subst e
      have hne : o ≠ l.2 := by
        rintro rfl
        exact (List.nodup_append.mp (hok.nodup hcache)).2.2 _ ho _ hlive rfl
      have hap := slots_apart (hok.fl_slot ho) (hok.live_slot hlive)
      unfold Memory.Apart at hap
      dsimp only at hap hsize
      omega
    · have hendb := (slot_inSlab (h.cache l.1 (h.owner (l.1, b) hb)) hokb.order (hokb.live_slot hlive)).2
      have hap := h.regions.of_ne hb hp e
      unfold InSlab at hinb
      unfold SlabHeap.slabLen at hap
      dsimp only at hap hendb
      omega
  · have := hout p hp
    unfold SlabHeap.slabLen at this
    omega

theorem Objects.write (h : Objects z cs live fl) {x : Nat} (byte : UInt8)
    (hx : (∃ l ∈ live, l.2 ≤ x ∧ x < l.2 + (z.cache l.1).objSize) ∨
      ∀ p ∈ z.slabs, x < (z.slab p.2).mem ∨ (z.slab p.2).mem + SlabHeap.slabLen z p ≤ x) :
    Objects { z with mem := z.mem.store8 x byte } cs live fl := by
  refine ⟨h.cache, h.owner, h.nodup, h.regions, fun p hp => ?_,
    fun d hd => ⟨(h.count d hd).slabs, (h.count d hd).active, (h.count d hd).free⟩, h.live_nodup,
    h.live_slab⟩
  refine (h.slab p hp).congr ⟨rfl, rfl, rfl, rfl, rfl, rfl⟩ ⟨rfl, rfl, rfl⟩ (fun o ho => ?_) rfl
  have hout := h.outside_free hx hp ho
  exact Memory.link_mark_congr (fun y _ _ => Function.update_of_ne (by omega) _ _)

/-! ## `cache_alloc` and `cache_free` in two parts -/

/-- `cache_alloc` once it has a slab. -/
def takeObj (z : SlabAllocator) (c slab : Nat) : SlabAllocator × Nat :=
  if slab = 0 then (z, 0)
  else
    let (z, obj) := z.slabAllocObj slab
    if obj = 0 then (z, 0)
    else
      let z := z.modCache c fun s =>
        { s with numActiveObjs := inc32 s.numActiveObjs, numFreeObjs := dec32 s.numFreeObjs }
      let z := if (z.slab slab).free = 0 then z.moveSlab c .slabsPartial .slabsFull slab else z
      (z, obj)

theorem cacheAlloc_eq (z : SlabAllocator) (hc : c ≠ 0) (buddy : Option SlabMem) :
    z.cacheAlloc c buddy = (z.pickSlab c buddy).1.takeObj c (z.pickSlab c buddy).2 := by
  unfold cacheAlloc takeObj
  rw [if_neg hc]

/-- The end of `cache_free`: the slab goes to the list it belongs on. -/
def relist (c slab : Nat) (wasFull : Bool) (z : SlabAllocator) : SlabAllocator :=
  if wasFull then z.moveSlab c .slabsFull .slabsPartial slab
  else if (z.slab slab).free = (z.cache c).numObjsPerSlab then z.moveSlab c .slabsPartial .slabsEmpty slab
  else z

theorem sameObjects_relist (c slab : Nat) (wasFull : Bool) (z : SlabAllocator) :
    SameObjects z (relist c slab wasFull z) := by
  unfold relist
  split
  · exact sameObjects_moveSlab _ c _ _ slab
  · split
    · exact sameObjects_moveSlab _ c _ _ slab
    · exact .refl _

/-- `cache_free` once it has found the slab. -/
def giveObj (z : SlabAllocator) (c slab obj : Nat) : SlabAllocator :=
  relist c slab (decide ((z.slab slab).free = 0)) (z.afterGive c slab obj)

theorem cacheFree_eq (z : SlabAllocator) (c o : Nat) :
    z.cacheFree c o = if c = 0 ∨ o = 0 then some z
      else (z.findSlab c o).map fun slab => if slab = 0 then z else z.giveObj c slab o := by
  unfold cacheFree
  split
  · rfl
  · cases z.findSlab c o with
    | none => rfl
    | some slab =>
        show (if slab = 0 then some z else _) = some (if slab = 0 then z else z.giveObj c slab o)
        split
        · rfl
        · unfold giveObj relist
          rw [apply_ite some, apply_ite some]
          rfl

end SlabAllocator

end KmOS
