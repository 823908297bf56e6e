/-
# `KmOS.Slab.Classify` — which list a slab is on

A slab without free objects belongs on the full list, one without live objects on
the empty list, any other on the partial list.  `cache_alloc` and `cache_reap`
keep it so.  `cache_free` looks at the slab once before and once after: a slab
that was full goes to the partial list, whatever it has become.  With one object
in a slab it has become empty (`SlabInv.free`), and `cache_reap` does not see it.
-/
import KmOS.Lib.Chain
import KmOS.Slab.Heap

namespace KmOS

namespace SlabAllocator

variable {z z' : SlabAllocator} {cs : List Nat} {live : List (Nat × Nat)} {c a : Nat}
  {L : Nat → SlabList → List Nat} {fl : Nat → List Nat} {l : SlabList}

/-- Following the links from the head of the list `l` of `c` one comes by `a`. -/
def OnList (z : SlabAllocator) (c : Nat) (l : SlabList) (a : Nat) : Prop :=
  ∃ as, Sll 0 (slabNext z) ((z.cache c).head l) as ∧ a ∈ as

/-- Every slab of `c` is on the list its count of free objects says. -/
structure Classified (z : SlabAllocator) (c : Nat) : Prop where
  full : ∀ a, (c, a) ∈ z.slabs → (OnList z c .slabsFull a ↔ (z.slab a).free = 0)
  empty : ∀ a, (c, a) ∈ z.slabs →
    (OnList z c .slabsEmpty a ↔ (z.slab a).free = (z.cache c).numObjsPerSlab)
  part : ∀ a, (c, a) ∈ z.slabs →
    (OnList z c .slabsPartial a ↔ (z.slab a).free ≠ 0 ∧
      (z.slab a).free ≠ (z.cache c).numObjsPerSlab)

/-- Every slab of `c` without live objects is the only slab of `c`. -/
def Reclaimed (z : SlabAllocator) (c : Nat) : Prop :=
  ∀ a, (c, a) ∈ z.slabs → (z.slab a).free = (z.cache c).numObjsPerSlab → slabsOf z c = [a]

theorem Lists.onList_iff (h : Lists z cs L) (hc : c ∈ cs) : OnList z c l a ↔ a ∈ L c l := by
  have hl := (h.list c hc l).sll
  constructor
  · rintro ⟨as, has, ha⟩
    exact has.unique hl ▸ ha
  · exact fun ha => ⟨L c l, hl, ha⟩

theorem not_onList_nil (h : (z.cache c).head l = 0) : ¬ OnList z c l a := by
  rintro ⟨as, has, ha⟩
  rw [has.head_eq_null_iff.mp h] at ha
  exact nomatch ha

theorem SlabOk.free_eq_num_iff {fl : List Nat} (h : SlabOk z live c a fl) :
    (z.slab a).free = (z.cache c).numObjsPerSlab ↔ liveOf z live c a = [] := by
  have htotal := h.total
  rw [← List.length_eq_zero_iff, ← h.inuse]
  omega

theorem SlabOk.free_eq_zero_iff {fl : List Nat} (h : SlabOk z live c a fl) :
    (z.slab a).free = 0 ↔ fl = [] := by
  rw [h.free]
  exact List.length_eq_zero_iff

/-- **The lists are right when the partial list is sharp.**  Nothing else can be
wrong with them. -/
theorem SlabInv.classified_iff (h : SlabInv z cs live L fl) (hc : c ∈ cs) :
    Classified z c ↔ Sharp z live L c := by
  have hon : ∀ {l a}, OnList z c l a ↔ a ∈ L c l := h.lists.onList_iff hc
  have hsome := (h.objects.cache c hc).some
  constructor
  · intro hcl b hb hnil
    have hin : (c, b) ∈ z.slabs := (h.onList c hc b).mpr ⟨_, hb⟩
    exact ((hcl.part b hin).mp (hon.mpr hb)).2 ((h.objects.slab _ hin).free_eq_num_iff.mpr hnil)
  · intro hsh
    -- the list a slab is on is the one it belongs on
    have hbelongs : ∀ a l, a ∈ L c l →
        match l with
        | .slabsFull => (z.slab a).free = 0
        | .slabsEmpty => (z.slab a).free = (z.cache c).numObjsPerSlab
        | .slabsPartial => (z.slab a).free ≠ 0 ∧ (z.slab a).free ≠ (z.cache c).numObjsPerSlab := by
      intro a l ha
      have hok := h.objects.slab _ ((h.onList c hc a).mpr ⟨l, ha⟩)
      have hpl := h.placed c hc l a ha
      cases l with
      | slabsFull => exact hok.free_eq_zero_iff.mpr hpl
      | slabsEmpty => exact hok.free_eq_num_iff.mpr hpl
      | slabsPartial =>
          exact ⟨fun e => hpl (hok.free_eq_zero_iff.mp e),
            fun e => hsh a ha (hok.free_eq_num_iff.mp e)⟩
    have hsplit : ∀ a, (c, a) ∈ z.slabs → ∀ l, ¬ OnList z c l a → ∃ k, k ≠ l ∧ a ∈ L c k := by
      intro a ha l hno
      obtain ⟨k, hk⟩ := (h.onList c hc a).mp ha
      exact ⟨k, fun e => hno (hon.mpr (e ▸ hk)), hk⟩
    refine ⟨fun a ha => ⟨fun hl => hbelongs a _ (hon.mp hl), fun hz => ?_⟩,
      fun a ha => ⟨fun hl => hbelongs a _ (hon.mp hl), fun hz => ?_⟩,
      fun a ha => ⟨fun hl => hbelongs a _ (hon.mp hl), fun hz => ?_⟩⟩
    all_goals
      by_contra hno
      obtain ⟨k, hne, hk⟩ := hsplit a ha _ hno
      have := hbelongs a k hk
      cases k <;> dsimp only at this <;> first | exact hne rfl | omega

/-- **`cache_reap`** leaves a cache with right lists one wholly free slab at
most, and then no other slab. -/
theorem SlabInv.reclaims (h : SlabInv z cs live L fl) (hc : c ∈ cs) (hcl : Classified z c) :
    ∃ z', z.cacheReap = some z' ∧ Classified z' c ∧ Reclaimed z' c := by
  obtain ⟨z', L', hz', h', hreap, hsharp⟩ := h.reap
  have hcl' := (h'.classified_iff hc).mpr (hsharp c ((h.classified_iff hc).mp hcl))
  refine ⟨z', hz', hcl', fun a ha hfree => ?_⟩
  have hmem := (h'.lists.onList_iff hc).mp ((hcl'.empty a ha).mpr hfree)
  rcases hreap c hc with hnil | hnum
  · exact absurd ⟨L' c .slabsEmpty, (h'.lists.list c hc _).sll, hmem⟩ (not_onList_nil hnil)
  · rw [(h'.objects.count c hc).slabs] at hnum
    have hin : a ∈ slabsOf z' c := mem_slabsOf.mpr ha
    obtain ⟨b, hb⟩ := List.length_eq_one_iff.mp (Nat.le_antisymm hnum (List.length_pos_of_mem hin))
    rw [hb] at hin ⊢
    rw [List.mem_singleton.mp hin]

end SlabAllocator

namespace SlabHeap

open SlabAllocator

variable {h : SlabHeap} {c : Nat}

instance (h : SlabHeap) (c : Nat) : (call : SlabCall) → Decidable (h.FreesLone c call)
  | .create .. => isFalse id
  | .alloc .. => isFalse id
  | .free d _ => inferInstanceAs (Decidable (d = c ∧ (h.slab.cache c).numObjsPerSlab = 1))
  | .reap => isFalse id
  | .write .. => isFalse id

/-- **Slabs are on the lists they belong on** while no object is given back to a
cache with one object in a slab, and `cache_reap` then reclaims all wholly free
slabs but the last; giving an object back keeps it so exactly if there is more
than one object in a slab. -/
theorem slab_lists_classify (mem : Memory)
    (hr : Reaches SlabHeap.step (fun h call => h.Allowed call ∧ ¬ h.FreesLone c call) (start mem) h)
    (hc : c ∈ h.caches) :
    Classified h.slab c ∧
      (∃ z', h.slab.cacheReap = some z' ∧ Classified z' c ∧ Reclaimed z' c) ∧
      ∀ o, (c, o) ∈ h.live → ∃ h', h.step (.free c o) = some h' ∧
        (Classified h'.slab c ↔ (h.slab.cache c).numObjsPerSlab ≠ 1) := by
  have hinv : ∃ L fl, SlabInv h.slab h.caches h.live L fl ∧
      (c ∈ h.caches → Sharp h.slab h.live L c) := by
    refine hr.invariant (I := fun h => ∃ L fl, SlabInv h.slab h.caches h.live L fl ∧
      (c ∈ h.caches → Sharp h.slab h.live L c))
      ⟨_, _, SlabInv.init mem, fun hc => absurd hc List.not_mem_nil⟩ ?_
    rintro u call u' ⟨L, fl, hi, hsh⟩ ⟨hok, hlone⟩ hs
    obtain ⟨h', L', fl', hs', hi', hsharp⟩ := step_inv hi hok
    rw [hs] at hs'
    obtain rfl := Option.some.inj hs'
    exact ⟨L', fl', hi', fun hc => hsharp c hc hlone hsh⟩
  obtain ⟨L, fl, hi, hsh⟩ := hinv
  have hcl := (hi.classified_iff hc).mpr (hsh hc)
  refine ⟨hcl, hi.reclaims hc hcl, fun o ho => ?_⟩
  obtain ⟨z', L', fl', _, hz', hi', _, _, hkeep, hbreak⟩ := hi.free ho
  refine ⟨{ h with slab := z', live := h.live.erase (c, o) }, by rw [step, hz']; rfl, ?_⟩
  rw [hi'.classified_iff hc]
  exact ⟨fun hsh' hone => hbreak hone hsh', fun hne => hkeep c hc (fun _ => hne) (hsh hc)⟩

/-- A cache with two objects in a slab takes two slabs and gives all objects
back. -/
theorem slab_lists_classify_two :
    ∃ h, Reaches SlabHeap.step Allowed (start (fun _ => 7)) h ∧
      h.slab.slabs = [(64, 512), (64, 256)] ∧ Classified h.slab 64 ∧
      ∃ z', h.slab.cacheReap = some z' ∧ Reclaimed z' 64 := by
  obtain ⟨h, hr, hh⟩ := Reaches.of_checked_script SlabHeap.step
    (fun h call => h.Allowed call ∧ ¬ h.FreesLone 64 call) (start (fun _ => 7))
    (fun h => decide (64 ∈ h.caches) && h.slab.slabs == [(64, 512), (64, 256)])
    [.create 2048 8 0 (some 64), .alloc 64 (some ⟨256, 65536⟩), .alloc 64 none,
      .alloc 64 (some ⟨512, 131072⟩), .free 64 67584, .free 64 65536, .free 64 133120]
    (by decide +kernel)
  rw [Bool.and_eq_true, decide_eq_true_eq, beq_iff_eq] at hh
  obtain ⟨hcl, ⟨z', hz', _, hrec⟩, _⟩ := slab_lists_classify (fun _ => 7) hr hh.1
  exact ⟨h, hr.mono (fun _ _ h => h.1), hh.2, hcl, z', hz', hrec⟩

/-- A cache with one object in a slab: after one object has been given back its
slab is wholly free and on the partial list. -/
theorem slab_lists_lone_object :
    ¬ ∀ h, Reaches SlabHeap.step Allowed (start (fun _ => 7)) h → ∀ c ∈ h.caches,
      Classified h.slab c := by
  intro hall
  obtain ⟨h, hr, hh⟩ := Reaches.of_checked_script SlabHeap.step Allowed (start (fun _ => 7))
    (fun h => decide (64 ∈ h.caches) && decide ((64, 256) ∈ h.slab.slabs) &&
      decide ((h.slab.slab 256).free = (h.slab.cache 64).numObjsPerSlab) &&
      decide ((h.slab.cache 64).head .slabsEmpty = 0))
    [.create 4096 8 0 (some 64), .alloc 64 (some ⟨256, 65536⟩), .free 64 65536] (by decide +kernel)
  simp only [Bool.and_eq_true, decide_eq_true_eq] at hh
  obtain ⟨⟨⟨hc, hslab⟩, hfree⟩, hnil⟩ := hh
  exact not_onList_nil hnil (((hall h hr 64 hc).empty 256 hslab).mpr hfree)

end SlabHeap

end KmOS
