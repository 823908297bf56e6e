/-
# `KmOS.Slab.View` — some of the caches by themselves

`cache_alloc` and `cache_free` look neither at `cache_chain` nor at the record of
the slabs.  So they do the same on a view of the allocator (`seen`) that has only
some of its caches, on a chain that starts at the first of those.  `SlabInv` of
such a view says nothing about the other caches, and changes to these do not
disturb it (`SlabInv.congr`).

The functions on the lists of slabs do not look at the objects' memory either
(`Blind`).
-/
import KmOS.Slab.Heap

namespace KmOS

namespace SlabAllocator

variable {z z' : SlabAllocator} {cs : List Nat} {live : List (Nat × Nat)} {c a o x : Nat}
  {L : Nat → SlabList → List Nat} {fl : Nat → List Nat} {s : List (Nat × Nat)}

/-! ## Views -/

/-- The caches from `x` on and the slabs `s`. -/
def seen (z : SlabAllocator) (x : Nat) (s : List (Nat × Nat)) : SlabAllocator :=
  { z with cacheChain := x, slabs := s }

/-- A view with other contents of memory. -/
def recast (z : SlabAllocator) (x : Nat) (s : List (Nat × Nat)) (m : Memory) : SlabAllocator :=
  { z with cacheChain := x, slabs := s, mem := m }

/-- The function looks at caches and slabs only, and changes nothing else. -/
def Blind (f : SlabAllocator → SlabAllocator) : Prop :=
  ∀ z x s m, f (z.recast x s m) = (f z).recast x s m

section
variable {f k : SlabAllocator → SlabAllocator}

theorem Blind.comp (hf : Blind f) (hk : Blind k) : Blind fun z => k (f z) := by
  intro z x s m
  dsimp only
  rw [hf z x s m, hk]

theorem Blind.ite {p : SlabAllocator → Prop} [DecidablePred p]
    (hp : ∀ z x s m, p (z.recast x s m) ↔ p z) (hf : Blind f) (hk : Blind k) :
    Blind fun z => if p z then f z else k z := by
  intro z x s m
  dsimp only
  by_cases h : p z
  · rw [if_pos h, if_pos ((hp z x s m).mpr h)]
    exact hf z x s m
  · rw [if_neg h, if_neg (fun h' => h ((hp z x s m).mp h'))]
    exact hk z x s m

theorem Blind.mem (hf : Blind f) (z : SlabAllocator) : (f z).mem = z.mem := by
  have hself : f z = (f z).recast z.cacheChain z.slabs z.mem := hf z z.cacheChain z.slabs z.mem
  rw [hself]
  rfl

theorem Blind.seen (hf : Blind f) (z : SlabAllocator) (x : Nat) (s : List (Nat × Nat)) :
    f (z.seen x s) = (f z).seen x s := by
  have hview : f (z.seen x s) = (f z).recast x s z.mem := hf z x s z.mem
  rw [hview, ← hf.mem z]
  rfl

end

theorem blind_id : Blind fun z => z := fun _ _ _ _ => rfl

theorem blind_unlinkSlab (c : Nat) (src : SlabList) (a : Nat) : Blind fun z => z.unlinkSlab c src a := by
  have hnext : Blind fun z => if (z.slab a).prev ≠ 0 then
      z.modSlab (z.slab a).prev fun t => { t with next := (z.slab a).next }
      else z.setHead c src (z.slab a).next :=
    .ite (fun _ _ _ _ => Iff.rfl) (fun _ _ _ _ => rfl) (fun _ _ _ _ => rfl)
  have hprev : Blind fun z => if (z.slab a).next ≠ 0 then
      z.modSlab (z.slab a).next fun t => { t with prev := (z.slab a).prev } else z :=
    .ite (fun _ _ _ _ => Iff.rfl) (fun _ _ _ _ => rfl) blind_id
  exact hnext.comp hprev

theorem blind_pushSlab (c : Nat) (dst : SlabList) (a : Nat) : Blind fun z => z.pushSlab c dst a := by
  have hnext : Blind fun z => z.modSlab a fun t => { t with next := (z.cache c).head dst, prev := 0 } :=
    fun _ _ _ _ => rfl
  have hprev : Blind fun z => if (z.cache c).head dst ≠ 0 then
      z.modSlab ((z.cache c).head dst) fun t => { t with prev := a } else z :=
    .ite (fun _ _ _ _ => Iff.rfl) (fun _ _ _ _ => rfl) blind_id
  have hhead : Blind fun z => z.setHead c dst a := fun _ _ _ _ => rfl
  exact (hnext.comp hprev).comp hhead

theorem blind_moveSlab (c : Nat) (src dst : SlabList) (a : Nat) : Blind fun z => z.moveSlab c src dst a :=
  (blind_unlinkSlab c src a).comp (blind_pushSlab c dst a)

/-- What `pickSlab` adds to the record of slabs it adds to that of any view. -/
theorem pickSlab_seen (z : SlabAllocator) (c : Nat) {buddy : Option SlabMem}
    (hb : ∀ b ∈ buddy, b.slab ≠ 0) :
    ∃ t, (∀ p ∈ t, ∃ b ∈ buddy, p = (c, b.slab)) ∧
      (z.pickSlab c buddy).1.slabs = t ++ z.slabs ∧
      ∀ x s, (z.seen x s).pickSlab c buddy =
        ((z.pickSlab c buddy).1.seen x (t ++ s), (z.pickSlab c buddy).2) := by
  by_cases hpart : (z.cache c).head .slabsPartial = 0
  · by_cases hempty : (z.cache c).head .slabsEmpty = 0
    · cases buddy with
      | none =>
          have hnone : ∀ w : SlabAllocator, (w.cache c).head .slabsPartial = 0 →
              (w.cache c).head .slabsEmpty = 0 → w.pickSlab c none = (w, 0) := by
            intro w hp he
            unfold pickSlab
            rw [hp, he]
            rfl
          refine ⟨[], nofun, by rw [hnone z hpart hempty]; rfl, fun x s => ?_⟩
          rw [hnone z hpart hempty, hnone (z.seen x s) hpart hempty]
          rfl
      | some b =>
          refine ⟨[(c, b.slab)], fun p hp => ⟨b, rfl, List.mem_singleton.mp hp⟩, ?_, fun x s => ?_⟩
          · rw [pickSlab_create hpart hempty (hb b rfl)]
            exact (sameObjects_addSlab z c b).slabs
          · rw [pickSlab_create hpart hempty (hb b rfl),
              pickSlab_create (z := z.seen x s) hpart hempty (hb b rfl)]
            have hcreate : ((z.seen x s).slabCreate c (some b)).1 =
                (z.slabCreate c (some b)).1.seen x ((c, b.slab) :: s) := rfl
            unfold addSlab
            rw [hcreate, (blind_pushSlab c _ _).seen]
            rfl
    · have hmove : ∀ w : SlabAllocator, (w.cache c).head = (z.cache c).head →
          w.pickSlab c buddy = (w.moveSlab c .slabsEmpty .slabsPartial
            ((z.cache c).head .slabsEmpty), (z.cache c).head .slabsEmpty) := by
        intro w hw
        unfold pickSlab
        dsimp only
        rw [hw, if_neg (not_not.mpr hpart), if_pos hempty]
      refine ⟨[], nofun, ?_, fun x s => ?_⟩
      · rw [hmove z rfl]
        exact (sameObjects_moveSlab z c _ _ _).slabs
      · rw [hmove z rfl, hmove (z.seen x s) rfl, (blind_moveSlab c _ _ _).seen]
        rfl
  · have hhead : ∀ w : SlabAllocator, (w.cache c).head = (z.cache c).head →
        w.pickSlab c buddy = (w, (z.cache c).head .slabsPartial) := by
      intro w hw
      unfold pickSlab
      dsimp only
      rw [hw, if_pos hpart]
    refine ⟨[], nofun, by rw [hhead z rfl]; rfl, fun x s => ?_⟩
    rw [hhead z rfl, hhead (z.seen x s) rfl]
    rfl

theorem slabAllocObj_seen (z : SlabAllocator) (a x : Nat) (s : List (Nat × Nat)) :
    (z.seen x s).slabAllocObj a = ((z.slabAllocObj a).1.seen x s, (z.slabAllocObj a).2) ∧
      (z.slabAllocObj a).1.slabs = z.slabs := by
  unfold slabAllocObj
  dsimp only
  by_cases hfree : (z.slab a).freelist = 0
  · rw [if_pos hfree, if_pos (show ((z.seen x s).slab a).freelist = 0 from hfree)]
    exact ⟨rfl, rfl⟩
  · rw [if_neg hfree, if_neg (show ¬ ((z.seen x s).slab a).freelist = 0 from hfree)]
    by_cases hmark : z.mem.mark (z.slab a).freelist ≠ slabMagic
    · rw [if_pos hmark, if_pos (show (z.seen x s).mem.mark ((z.seen x s).slab a).freelist ≠ slabMagic
        from hmark)]
      exact ⟨rfl, rfl⟩
    · rw [if_neg hmark, if_neg (show ¬ (z.seen x s).mem.mark ((z.seen x s).slab a).freelist ≠ slabMagic
        from hmark)]
      exact ⟨rfl, rfl⟩

theorem takeObj_seen (z : SlabAllocator) (c slab x : Nat) (s : List (Nat × Nat)) :
    (z.seen x s).takeObj c slab = ((z.takeObj c slab).1.seen x s, (z.takeObj c slab).2) ∧
      (z.takeObj c slab).1.slabs = z.slabs := by
  unfold takeObj
  by_cases hslab : slab = 0
  · rw [if_pos hslab, if_pos hslab]
    exact ⟨rfl, rfl⟩
  rw [if_neg hslab, if_neg hslab]
  obtain ⟨hseen, hslabs⟩ := slabAllocObj_seen z slab x s
  rw [hseen]
  generalize z.slabAllocObj slab = r at hslabs
  obtain ⟨z₁, obj⟩ := r
  dsimp only at hslabs ⊢
  by_cases hobj : obj = 0
  · rw [if_pos hobj, if_pos hobj]
    exact ⟨rfl, hslabs⟩
  rw [if_neg hobj, if_neg hobj]
  generalize hw : (z₁.modCache c fun s =>
    { s with numActiveObjs := inc32 s.numActiveObjs, numFreeObjs := dec32 s.numFreeObjs }) = w
  have hw' : ((z₁.seen x s).modCache c fun s =>
      { s with numActiveObjs := inc32 s.numActiveObjs, numFreeObjs := dec32 s.numFreeObjs }) =
      w.seen x s := by
    rw [← hw]
    rfl
  have hws : w.slabs = z.slabs := by
    rw [← hw]
    exact hslabs
  rw [hw']
  by_cases hfull : (w.slab slab).free = 0
  · rw [if_pos hfull, if_pos (show ((w.seen x s).slab slab).free = 0 from hfull),
      (blind_moveSlab c _ _ slab).seen]
    exact ⟨rfl, (sameObjects_moveSlab w c _ _ slab).slabs.trans hws⟩
  · rw [if_neg hfull, if_neg (show ¬ ((w.seen x s).slab slab).free = 0 from hfull)]
    exact ⟨rfl, hws⟩

/-- **`cache_alloc` on a view.** -/
theorem cacheAlloc_seen (z : SlabAllocator) (hc : c ≠ 0) {buddy : Option SlabMem}
    (hb : ∀ b ∈ buddy, b.slab ≠ 0) :
    ∃ t, (∀ p ∈ t, ∃ b ∈ buddy, p = (c, b.slab)) ∧
      (z.cacheAlloc c buddy).1.slabs = t ++ z.slabs ∧
      ∀ x s, (z.seen x s).cacheAlloc c buddy =
        ((z.cacheAlloc c buddy).1.seen x (t ++ s), (z.cacheAlloc c buddy).2) := by
  obtain ⟨t, ht, hslabs, hseen⟩ := pickSlab_seen z c hb
  refine ⟨t, ht, ?_, fun x s => ?_⟩
  · rw [cacheAlloc_eq z hc, (takeObj_seen _ c _ 0 []).2, hslabs]
  · rw [cacheAlloc_eq z hc, cacheAlloc_eq (z.seen x s) hc, hseen, (takeObj_seen _ c _ x (t ++ s)).1]

theorem findSlabLoop_recast (z : SlabAllocator) (o x : Nat) (s : List (Nat × Nat)) (m : Memory)
    (fuel cur : Nat) : (z.recast x s m).findSlabLoop o fuel cur = z.findSlabLoop o fuel cur := by
  induction fuel generalizing cur with
  | zero => rfl
  | succ fuel ih =>
      unfold findSlabLoop
      rw [show ((z.recast x s m).slab cur).next = (z.slab cur).next from rfl, ih]
      rfl

theorem findSlab_recast (z : SlabAllocator) (c o x : Nat) (s : List (Nat × Nat)) (m : Memory) :
    (z.recast x s m).findSlab c o = z.findSlab c o := by
  unfold findSlab
  rw [findSlabLoop_recast, findSlabLoop_recast]
  rfl

theorem findSlab_seen (z : SlabAllocator) (c o x : Nat) (s : List (Nat × Nat)) :
    (z.seen x s).findSlab c o = z.findSlab c o := findSlab_recast z c o x s z.mem

theorem blind_relist (c slab : Nat) (wasFull : Bool) : Blind (relist c slab wasFull) :=
  .ite (fun _ _ _ _ => Iff.rfl) (blind_moveSlab c _ _ slab)
    (.ite (fun _ _ _ _ => Iff.rfl) (blind_moveSlab c _ _ slab) blind_id)

/-- **`cache_free` on a view.** -/
theorem cacheFree_seen (z : SlabAllocator) (c o x : Nat) (s : List (Nat × Nat)) :
    (z.seen x s).cacheFree c o = (z.cacheFree c o).map fun w => w.seen x s := by
  have hgive : ∀ slab, (z.seen x s).giveObj c slab o = (z.giveObj c slab o).seen x s :=
    fun slab => (blind_relist c slab _).seen (z.afterGive c slab o) x s
  rw [cacheFree_eq, cacheFree_eq, findSlab_seen]
  split
  · rfl
  · rw [Option.map_map]
    refine congrArg (fun f => Option.map f (z.findSlab c o)) (funext fun slab => ?_)
    dsimp only [Function.comp_apply]
    rw [hgive, apply_ite fun w : SlabAllocator => w.seen x s]

theorem slabs_cacheFree (h : z.cacheFree c o = some z') : z'.slabs = z.slabs := by
  rw [cacheFree_eq] at h
  split at h
  · rw [← Option.some.inj h]
  · obtain ⟨slab, _, rfl⟩ := Option.map_eq_some_iff.mp h
    split
    · rfl
    · exact (sameObjects_relist c slab _ (z.afterGive c slab o)).slabs

/-! ## Other caches -/

/-- The caches `cs` and all slabs are the same. -/
structure Agrees (z z' : SlabAllocator) (cs : List Nat) : Prop where
  chain : z'.cacheChain = z.cacheChain
  slabs : z'.slabs = z.slabs
  mem : z'.mem = z.mem
  cache : ∀ c ∈ cs, z'.cache c = z.cache c
  slab : ∀ p ∈ z.slabs, z'.slab p.2 = z.slab p.2

theorem Agrees.body (ha : Agrees z z' cs) {p : Nat × Nat} (hp : p ∈ z.slabs) :
    SameBody (z.slab p.2) (z'.slab p.2) := by
  rw [ha.slab p hp]
  exact .refl _

theorem Agrees.slabsOf (ha : Agrees z z' cs) (c : Nat) : slabsOf z' c = slabsOf z c := by
  unfold SlabAllocator.slabsOf
  rw [ha.slabs]

theorem Counts.agree (h : Counts z c) (ha : Agrees z z' cs) (hc : c ∈ cs) : Counts z' c := by
  have hslab : ∀ a ∈ slabsOf z c, z'.slab a = z.slab a := fun a hm =>
    ha.slab (c, a) (mem_slabsOf.mp hm)
  refine ⟨?_, ?_, ?_⟩
  · rw [ha.cache c hc, ha.slabsOf]
    exact h.slabs
  · rw [ha.cache c hc, ha.slabsOf,
      List.map_congr_left (fun a hm => congrArg Slab.inuse (hslab a hm))]
    exact h.active
  · rw [ha.cache c hc, ha.slabsOf,
      List.map_congr_left (fun a hm => congrArg Slab.free (hslab a hm))]
    exact h.free

theorem Objects.agree (h : Objects z cs live fl) (ha : Agrees z z' cs) : Objects z' cs live fl := by
  refine ⟨fun c hc => ha.cache c hc ▸ h.cache c hc, ?_, ?_, ?_, ?_,
    fun c hc => (h.count c hc).agree ha hc, h.live_nodup, ?_⟩
  · rw [ha.slabs]
    exact h.owner
  · rw [ha.slabs]
    exact h.nodup
  · rw [ha.slabs]
    refine h.regions.imp_of_mem (fun {p q} hp hq hpq => ?_)
    unfold SlabHeap.slabLen at hpq ⊢
    dsimp only at hpq ⊢
    rw [ha.slab p hp, ha.slab q hq]
    exact hpq
  · rw [ha.slabs]
    intro p hp
    have hsizes : SameSizes (z.cache p.1) (z'.cache p.1) := by
      rw [ha.cache p.1 (h.owner p hp)]
      exact ⟨rfl, rfl, rfl⟩
    exact (h.slab p hp).congr (ha.body hp) hsizes
      (fun o _ => by rw [ha.mem]; exact ⟨rfl, rfl⟩) (liveOf_congr (ha.body hp))
  · intro p hp
    obtain ⟨a, hm, hin⟩ := h.live_slab p hp
    exact ⟨a, ha.slabs ▸ hm, (inSlab_congr (ha.body hm)).mpr hin⟩

/-- **What happens to other caches does not matter.** -/
theorem SlabInv.congr (h : SlabInv z cs live L fl) (ha : Agrees z z' cs) :
    SlabInv z' cs live L fl := by
  have hon : ∀ c ∈ cs, ∀ l, ∀ a ∈ L c l, (c, a) ∈ z.slabs := fun c hc l a hl =>
    (h.onList c hc a).mpr ⟨l, hl⟩
  refine ⟨⟨?_, h.nodup, h.small, ?_, fun c hc a => ?_, h.objects.agree ha⟩, fun c hc l a hl => ?_⟩
  · rw [ha.chain]
    exact h.chain.congr (fun c hc => by rw [ha.cache c hc])
  · refine h.lists.congr (fun c hc => by rw [ha.cache c hc]) (fun c hc l a hl => ?_)
    unfold slabNext slabPrev
    rw [ha.slab (c, a) (hon c hc l a hl)]
    exact ⟨rfl, rfl⟩
  · rw [ha.slabs]
    exact h.onList c hc a
  · rw [liveOf_congr (ha.body (hon c hc l a hl))]
    exact h.placed c hc l a hl

end SlabAllocator

end KmOS
