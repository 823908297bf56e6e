/-
# `KmOS.Slab.Frame` — what a call on one cache leaves alone

A call on one cache rewrites that cache, its slabs and, if a slab is made, the
new descriptor.  Slabs change lists within their cache.  `Frame` says so;
`Sharp` is about the partial list of a cache: every slab on it has a live
object.
-/
import KmOS.Slab.Operations

namespace KmOS

namespace SlabAllocator

variable {z z' z'' : SlabAllocator} {live live' : List (Nat × Nat)} {c d a o : Nat}
  {L L' : Nat → SlabList → List Nat} {new : Option SlabMem} {src dst : SlabList}

/-! ## The frame of a call -/

/-- Only the cache `c`, its slabs and the slab got with `new` have changed, links
apart. -/
structure Frame (z z' : SlabAllocator) (c : Nat) (new : Option SlabMem) : Prop where
  caches : ∀ d, d ≠ c → z'.cache d = z.cache d
  sizes : SameSizes (z.cache c) (z'.cache c)
  bodies : ∀ a, (c, a) ∉ z.slabs → (∀ b ∈ new, a ≠ b.slab) → SameBody (z.slab a) (z'.slab a)
  slabs : ∀ a, (c, a) ∈ z'.slabs → (c, a) ∈ z.slabs ∨ ∃ b ∈ new, a = b.slab

theorem SameBody.refl (s : Slab) : SameBody s s := ⟨rfl, rfl, rfl, rfl, rfl, rfl⟩

theorem SameBody.trans {s s' s'' : Slab} (h : SameBody s s') (h' : SameBody s' s'') :
    SameBody s s'' := by
  obtain ⟨h₁, h₂, h₃, h₄, h₅, h₆⟩ := h
  obtain ⟨h₁', h₂', h₃', h₄', h₅', h₆'⟩ := h'
  exact ⟨h₁'.trans h₁, h₂'.trans h₂, h₃'.trans h₃, h₄'.trans h₄, h₅'.trans h₅, h₆'.trans h₆⟩

theorem SameSizes.trans {s s' s'' : SlabCache} (h : SameSizes s s') (h' : SameSizes s' s'') :
    SameSizes s s'' :=
  ⟨h'.1.trans h.1, h'.2.1.trans h.2.1, h'.2.2.trans h.2.2⟩

theorem Frame.refl (z : SlabAllocator) (c : Nat) (new : Option SlabMem) : Frame z z c new where
  caches := fun _ _ => rfl
  sizes := ⟨rfl, rfl, rfl⟩
  bodies := fun a _ _ => .refl (z.slab a)
  slabs := fun _ ha => Or.inl ha

theorem Frame.sizes_all (h : Frame z z' c new) (d : Nat) : SameSizes (z.cache d) (z'.cache d) := by
  by_cases e : d = c
  · exact e ▸ h.sizes
  · rw [h.caches d e]
    exact ⟨rfl, rfl, rfl⟩

/-- A call that made no slab is one that might have made one. -/
theorem Frame.create (h : Frame z z' c none) (new : Option SlabMem) : Frame z z' c new where
  caches := h.caches
  sizes := h.sizes
  bodies := fun a ha _ => h.bodies a ha nofun
  slabs := fun a ha => by
    rcases h.slabs a ha with ha | ⟨_, hb, _⟩
    · exact Or.inl ha
    · exact nomatch hb

/-- First a call that may make a slab, then one that does not. -/
theorem Frame.trans (h : Frame z z' c new) (h' : Frame z' z'' c none) : Frame z z'' c new where
  caches := fun d hd => (h'.caches d hd).trans (h.caches d hd)
  sizes := h.sizes.trans h'.sizes
  bodies := fun a ha hnew => by
    have ha' : (c, a) ∉ z'.slabs := fun hm => by
      rcases h.slabs a hm with hm | ⟨b, hb, rfl⟩
      · exact ha hm
      · exact hnew b hb rfl
    exact (h.bodies a ha hnew).trans (h'.bodies a ha' nofun)
  slabs := fun a ha => by
    rcases h'.slabs a ha with ha | ⟨_, hb, _⟩
    · exact h.slabs a ha
    · exact nomatch hb

theorem OneSlab.frame (u : OneSlab z z' c a) (ha : (c, a) ∈ z.slabs) : Frame z z' c none where
  caches := u.caches
  sizes := u.sizes
  bodies := fun b hb _ => by
    rw [u.other b (fun e => hb (e ▸ ha))]
    exact .refl (z.slab b)
  slabs := fun b hb => Or.inl (u.slabs ▸ hb)

theorem cache_setHead_of_ne (z : SlabAllocator) (l : SlabList) (a : Nat) (h : d ≠ c) :
    (z.setHead c l a).cache d = z.cache d := Function.update_of_ne h _ z.cache

theorem cache_unlinkSlab_of_ne (z : SlabAllocator) (src : SlabList) (a : Nat) (h : d ≠ c) :
    (z.unlinkSlab c src a).cache d = z.cache d := by
  unfold unlinkSlab
  dsimp only
  split <;> split
  · rfl
  · rfl
  · exact cache_setHead_of_ne z src (z.slab a).next h
  · exact cache_setHead_of_ne z src (z.slab a).next h

theorem cache_pushSlab_of_ne (z : SlabAllocator) (dst : SlabList) (a : Nat) (h : d ≠ c) :
    (z.pushSlab c dst a).cache d = z.cache d := by
  unfold pushSlab
  dsimp only
  rw [cache_setHead_of_ne _ dst a h]
  split <;> rfl

theorem cache_slabDestroy_of_ne (z : SlabAllocator) (a : Nat) (h : d ≠ c) :
    (z.slabDestroy c a).cache d = z.cache d := by
  unfold slabDestroy
  split
  · rfl
  · dsimp only
    rw [cache_modCache, if_neg h]
    exact Function.update_of_ne h _ z.cache

/-- Links and heads of the cache do not matter. -/
theorem SameObjects.frame (h : SameObjects z z') (hc : ∀ d, d ≠ c → z'.cache d = z.cache d) :
    Frame z z' c none where
  caches := hc
  sizes := h.sizes c
  bodies := fun a _ _ => h.body a
  slabs := fun _ ha => Or.inl (h.slabs ▸ ha)

theorem frame_moveSlab (z : SlabAllocator) (c : Nat) (src dst : SlabList) (a : Nat) :
    Frame z (z.moveSlab c src dst a) c none :=
  (sameObjects_moveSlab z c src dst a).frame (fun _ hd =>
    (cache_pushSlab_of_ne (z.unlinkSlab c src a) dst a hd).trans (cache_unlinkSlab_of_ne z src a hd))

/-- A change of the counters of one cache does not disturb moves. -/
theorem SameObjects.modCache (h : SameObjects z z') (c : Nat) {g : SlabCache → SlabCache}
    (hg : ∀ s f, ∃ f', g { s with head := f } = { g s with head := f' }) :
    SameObjects (z.modCache c g) (z'.modCache c g) where
  chain := h.chain
  slabs := h.slabs
  mem := h.mem
  slab := h.slab
  cache := fun d => by
    rw [cache_modCache, cache_modCache]
    split
    · obtain ⟨f, e⟩ := h.cache c
      rw [e]
      exact hg _ _
    · exact h.cache d

/-- A new slab, put on the partial list. -/
def addSlab (z : SlabAllocator) (c : Nat) (b : SlabMem) : SlabAllocator :=
  ((z.slabCreate c (some b)).1.pushSlab c .slabsPartial b.slab).modCache c
    fun s => { s with numSlabs := inc32 s.numSlabs }

theorem sameObjects_addSlab (z : SlabAllocator) (c : Nat) (b : SlabMem) :
    SameObjects (z.afterCreate c b) (z.addSlab c b) :=
  (sameObjects_pushSlab _ c .slabsPartial b.slab).modCache c (fun _ f => ⟨f, rfl⟩)

theorem frame_addSlab (z : SlabAllocator) (c : Nat) (b : SlabMem) :
    Frame z (z.addSlab c b) c (some b) where
  caches := fun d hd => by
    unfold addSlab
    rw [cache_modCache, if_neg hd, cache_pushSlab_of_ne _ _ _ hd]
    exact Function.update_of_ne hd _ z.cache
  sizes := (sizes_afterCreate z c c b).trans ((sameObjects_addSlab z c b).sizes c)
  bodies := fun a _ hne => by
    have hs := (sameObjects_addSlab z c b).body a
    rwa [slab_afterCreate_of_ne z c (hne b rfl)] at hs
  slabs := fun a ha => by
    rw [(sameObjects_addSlab z c b).slabs, slabs_afterCreate] at ha
    rcases List.mem_cons.mp ha with e | ha
    · exact Or.inr ⟨b, rfl, congrArg Prod.snd e⟩
    · exact Or.inl ha

/-! ## The partial list -/

/-- Every slab on the partial list of `c`, except perhaps `a`, has a live
object. -/
def SharpBut (z : SlabAllocator) (live : List (Nat × Nat)) (L : Nat → SlabList → List Nat)
    (c a : Nat) : Prop :=
  ∀ b ∈ L c .slabsPartial, b ≠ a → liveOf z live c b ≠ []

def Sharp (z : SlabAllocator) (live : List (Nat × Nat)) (L : Nat → SlabList → List Nat)
    (c : Nat) : Prop :=
  ∀ b ∈ L c .slabsPartial, liveOf z live c b ≠ []

theorem Sharp.but (h : Sharp z live L c) (a : Nat) : SharpBut z live L c a :=
  fun b hb _ => h b hb

/-- Where the partial list got no new slab, and the slabs on it lost no live
object, it stays sharp. -/
theorem Sharp.mono (h : Sharp z live L c)
    (hsub : ∀ b ∈ L' c .slabsPartial, b ∈ L c .slabsPartial ∧
      liveOf z' live' c b = liveOf z live c b) : Sharp z' live' L' c := by
  intro b hb
  obtain ⟨hb', he⟩ := hsub b hb
  rw [he]
  exact h b hb'

theorem SharpBut.sharp (h : SharpBut z live L c a)
    (hself : a ∈ L c .slabsPartial → liveOf z live c a ≠ []) : Sharp z live L c := by
  intro b hb
  by_cases e : b = a
  · exact e ▸ hself (e ▸ hb)
  · exact h b hb e

/-- `move_slab` puts `a` on another list. -/
theorem SharpBut.move {cs : List Nat} (h : SharpBut z live L d a) (hl : Lists z cs L) (hc : c ∈ cs)
    (ha : a ∈ L c src) (hsd : src ≠ dst) (hd : d ∈ cs) :
    SharpBut (z.moveSlab c src dst a) live (movedLists L c src dst a) d a := by
  intro b hb hne
  rw [liveOf_congr ((sameObjects_moveSlab z c src dst a).body b)]
  rcases (mem_movedLists hl hc ha hsd hd).mp hb with ⟨e, _⟩ | ⟨_, hb⟩
  · exact absurd e hne
  · exact h b hb hne

/-- A sharp list stays sharp when a slab goes to a list other than the partial
one. -/
theorem SharpBut.move_away {cs : List Nat} (h : SharpBut z live L d a) (hl : Lists z cs L)
    (hc : c ∈ cs) (ha : a ∈ L c src) (hsd : src ≠ dst) (hd : d ∈ cs) (hdst : dst ≠ .slabsPartial) :
    Sharp (z.moveSlab c src dst a) live (movedLists L c src dst a) d := by
  intro b hb
  rw [liveOf_congr ((sameObjects_moveSlab z c src dst a).body b)]
  rcases (mem_movedLists hl hc ha hsd hd).mp hb with ⟨_, _, e⟩ | ⟨hne, hb⟩
  · exact absurd e.symm hdst
  · exact h b hb hne

end SlabAllocator

end KmOS
