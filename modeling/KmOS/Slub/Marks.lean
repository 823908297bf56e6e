/-
# `KmOS.Slub.Marks` — magic words, and CPUs with nothing at rest

A free object of a page has the magic word 0 and an object at rest has the
magic number in it; which of the two an object has is all that `cache_free` can
tell of it.  Objects rest on the running CPU, in caches with `SLUB_CACHE_PERCPU`.
`Carries` says of a step that it keeps both facts, and `Grows` that it takes no
object back to its page either; each step of `cache_alloc` does both, and each of
`cache_free` the first.
-/
import KmOS.Slub.Invariant

namespace KmOS

namespace SlubAllocator

variable {z z' z'' : SlubAllocator} {cs : List Nat} {live live' live'' : List (Nat × Nat)}
  {out out' out'' : List Nat} {fl : Nat → List Nat} {c o : Nat} {p : Nat × Nat}

/-! ## Definitions -/

/-- **The magic words.**  That of an object in a client's hands is the
client's. -/
structure Marked (z : SlubAllocator) (live : List (Nat × Nat)) (out : List Nat) : Prop where
  free : ∀ p ∈ z.pages, ∀ x ∈ (arr z p).objs, x ∉ out → z.mem.mark x = 0
  rest : ∀ x ∈ out, x ∉ live.map Prod.snd → z.mem.mark x = slubMagic

/-- A per-CPU cache with nothing in it. -/
def Idle (z : SlubAllocator) (i : Nat × Nat) : Prop :=
  (cpuAt z i).batchCount = 0 ∧ (cpuAt z i).freelist = 0

instance (z : SlubAllocator) (i : Nat × Nat) : Decidable (Idle z i) :=
  inferInstanceAs (Decidable (_ ∧ _))

/-- Objects rest on the running CPU only, and in caches with
`SLUB_CACHE_PERCPU` only. -/
def Quiet (z : SlubAllocator) : Prop :=
  ∀ i, ¬ (percpu (z.cache i.1) ∧ i.2 = z.cpuIndex) → Idle z i

/-- A step keeps the magic words and the idle CPUs. -/
structure Carries (z : SlubAllocator) (live : List (Nat × Nat)) (out : List Nat)
    (z' : SlubAllocator) (live' : List (Nat × Nat)) (out' : List Nat) : Prop where
  marked : Marked z live out → Marked z' live' out'
  quiet : Quiet z → Quiet z'
  flags : ∀ d, (z'.cache d).flags = (z.cache d).flags

theorem Carries.trans (h : Carries z live out z' live' out')
    (h' : Carries z' live' out' z'' live'' out'') : Carries z live out z'' live'' out'' where
  marked := fun hm => h'.marked (h.marked hm)
  quiet := fun hq => h'.quiet (h.quiet hq)
  flags := fun d => (h'.flags d).trans (h.flags d)

/-- No object returns to its page, either. -/
structure Grows (z : SlubAllocator) (live : List (Nat × Nat)) (out : List Nat)
    (z' : SlubAllocator) (live' : List (Nat × Nat)) (out' : List Nat) : Prop
    extends Carries z live out z' live' out' where
  out : ∀ x ∈ out, x ∈ out'

theorem Grows.refl (z : SlubAllocator) (live : List (Nat × Nat)) (out : List Nat) :
    Grows z live out z live out := ⟨⟨id, id, fun _ => rfl⟩, fun _ hx => hx⟩

theorem Grows.trans (h : Grows z live out z' live' out')
    (h' : Grows z' live' out' z'' live'' out'') : Grows z live out z'' live'' out'' where
  toCarries := h.toCarries.trans h'.toCarries
  out := fun x hx => h'.out x (h.out x hx)

theorem percpu_congr {s s' : SlubCache} (h : s'.flags = s.flags) : percpu s' ↔ percpu s := by
  unfold percpu
  rw [h]

/-! ## Magic words -/

/-- Magic words are read where there are objects, in pages that need not all be
there any more. -/
theorem Marked.congr (h : Marked z live out) (hp : Pages z cs out fl)
    (hpages : ∀ p ∈ z'.pages, p ∈ z.pages) (harr : ∀ p ∈ z.pages, arr z' p = arr z p)
    (hmark : ∀ p ∈ z.pages, ∀ x ∈ (arr z p).objs, x ∉ live.map Prod.snd →
      z'.mem.mark x = z.mem.mark x)
    (hlive : ∀ x ∈ live.map Prod.snd, x ∈ out) : Marked z' live out where
  free := fun p hp' x hx hno => by
    have hpz := hpages p hp'
    rw [harr p hpz] at hx
    rw [hmark p hpz x hx (fun hl => hno (hlive x hl))]
    exact h.free p hpz x hx hno
  rest := fun x hx hno => by
    obtain ⟨q, hq, _, hobj⟩ := hp.out_obj hx
    rw [hmark q hq x hobj hno]
    exact h.rest x hx hno

/-- An object wakes. -/
theorem Marked.wake (h : Marked z live out) (hmem : z'.mem = z.mem) (hpages : z'.pages = z.pages)
    (harr : ∀ p, arr z' p = arr z p) : Marked z' (p :: live) out where
  free := by
    intro q hq x hx hno
    rw [hpages] at hq
    rw [harr] at hx
    rw [hmem]
    exact h.free q hq x hx hno
  rest := fun x hx hno => by
    rw [hmem]
    exact h.rest x hx (fun hl => hno (List.mem_cons_of_mem p.2 hl))

/-- An object goes to rest, with its magic number in it. -/
theorem Marked.drop (h : Marked z live out) (ho : z.mem.mark o = slubMagic) :
    Marked z (live.erase (c, o)) out where
  free := h.free
  rest := fun x hx hno => by
    by_cases e : x = o
    · rw [e]
      exact ho
    · refine h.rest x hx (fun hl => hno ?_)
      obtain ⟨q, hq, rfl⟩ := List.mem_map.mp hl
      have hne : q ≠ (c, o) := fun e' => e (congrArg Prod.snd e')
      exact List.mem_map.mpr ⟨q, (List.mem_erase_of_ne hne).mpr hq, rfl⟩

/-- The magic words of other objects when those of one are written. -/
theorem Pages.mark_setObject (h : Pages z cs out fl) {magic v x : Nat} {q : Nat × Nat}
    (hp : p ∈ z.pages) (hq : q ∈ z.pages) (ho : o ∈ (arr z p).objs) (hx : x ∈ (arr z q).objs)
    (hne : x ≠ o) (hmagic : magic < wordSize) :
    (setObject magic z.mem o v).mark x = z.mem.mark x := by
  have hap := h.apart hp hq ho hx
  have h₁ := (h.page p hp).fits.size
  have h₂ := (h.page q hq).fits.size
  exact (Memory.link_mark_congr (fun y _ _ =>
    (putsFree_setObject hmagic).other z.mem o v y (by omega))).2

/-- **The rule for taking and giving objects.** -/
theorem Marked.put (h : Marked z live out) (hp : Pages z cs out fl) {magic v : Nat}
    (hpo : p ∈ z.pages) (ho : o ∈ (arr z p).objs) (hmagic : magic < wordSize)
    (hmem : z'.mem = setObject magic z.mem o v) (hpages : z'.pages = z.pages)
    (harr : ∀ p, arr z' p = arr z p) (hfree : o ∉ out' → magic = 0)
    (hrest : o ∈ out' → o ∉ live'.map Prod.snd → magic = slubMagic)
    (hother : ∀ x, x ≠ o → (x ∈ out' ↔ x ∈ out) ∧
      (x ∈ live'.map Prod.snd ↔ x ∈ live.map Prod.snd)) : Marked z' live' out' := by
  have hself : z'.mem.mark o = magic := by
    rw [hmem]
    exact (putsFree_setObject hmagic).mark z.mem o v
  refine ⟨fun q hq x hx hno => ?_, fun x hx hno => ?_⟩
  · rw [hpages] at hq
    rw [harr] at hx
    by_cases e : x = o
    · subst e
      exact hself.trans (hfree hno)
    · rw [hmem, hp.mark_setObject hpo hq ho hx e hmagic]
      exact h.free q hq x hx (fun hxo => hno ((hother x e).1.mpr hxo))
  · by_cases e : x = o
    · subst e
      exact hself.trans (hrest hx hno)
    · have hxo := (hother x e).1.mp hx
      obtain ⟨q, hq, _, hobj⟩ := hp.out_obj hxo
      rw [hmem, hp.mark_setObject hpo hq ho hobj e hmagic]
      exact h.rest x hxo (fun hl => hno ((hother x e).2.mpr hl))

/-- The objects of a new page are free. -/
theorem Marked.newPage {b : SlubMem} (h : Marked z live out) (hp : Pages z cs out fl) (hc : c ∈ cs)
    (hb : NewPage z c b) (u : PageAdded z z' c b) : Marked z' live out := by
  have hfits := hb.fits (hp.cache c hc)
  obtain ⟨_, hbytes⟩ := ObjArray.keeps_thread (putsFree_setObject (by decide : 0 < wordSize)) hfits
    (fun o ho => hp.not_in_new hb ho) z.mem
  have hold : ∀ q ∈ z.pages, ∀ x ∈ (arr z q).objs, z'.mem.mark x = z.mem.mark x := by
    intro q hq x hx
    have hbd := (hp.page q hq).fits.bounds hx
    have hsize := (hp.page q hq).fits.size
    have hap := hb.apart q hq
    rw [u.mem]
    refine (Memory.link_mark_congr (fun y _ _ => hbytes y (fun hy => ?_))).2
    unfold ObjArray.Has newArr at hy
    unfold arr at hbd hsize
    unfold SlubHeap.Off at hap
    dsimp only at hy hbd hsize
    omega
  refine ⟨fun q hq x hx hno => ?_, fun x hx hno => ?_⟩
  · rw [u.pages] at hq
    rcases List.mem_cons.mp hq with rfl | hq
    · rw [u.arr_self] at hx
      rw [u.mem]
      exact ObjArray.mark_thread (putsFree_setObject (by decide : 0 < wordSize)) hfits z.mem hx
    · rw [u.arr_other hb hq] at hx
      rw [hold q hq x hx]
      exact h.free q hq x hx hno
  · obtain ⟨q, hq, _, hobj⟩ := hp.out_obj hx
    rw [hold q hq x hobj]
    exact h.rest x hx hno

/-! ## Idle CPUs -/

theorem Quiet.congr (h : Quiet z) (hcpu : ∀ i, cpuAt z' i = cpuAt z i)
    (hflags : ∀ d, (z'.cache d).flags = (z.cache d).flags) (hrun : z'.currentCpu = z.currentCpu) :
    Quiet z' := by
  intro i hi
  have hidx : z'.cpuIndex = z.cpuIndex := by
    unfold cpuIndex
    rw [hrun]
  rw [percpu_congr (hflags i.1), hidx] at hi
  unfold Idle
  rw [hcpu]
  exact h i hi

theorem flags_modCpu (z : SlubAllocator) (c k : Nat) (f : SlubCpuCache → SlubCpuCache) (d : Nat) :
    ((z.modCpu c k f).cache d).flags = (z.cache d).flags := by
  unfold modCpu
  rw [cache_modCache]
  split
  · next e => rw [e]
  · rfl

theorem Quiet.modCpu (h : Quiet z) (hper : percpu (z.cache c)) (f : SlubCpuCache → SlubCpuCache) :
    Quiet (z.modCpu c z.cpuIndex f) := by
  intro i hi
  rw [percpu_congr (flags_modCpu z c z.cpuIndex f i.1)] at hi
  have hne : i ≠ (c, z.cpuIndex) := fun e => hi (e ▸ ⟨hper, rfl⟩)
  unfold Idle
  rw [cpuAt_modCpu, if_neg hne]
  exact h i hi

/-! ## Lists of pages -/

theorem SameObjects.cpuAt_eq (h : SameObjects z z') (i : Nat × Nat) : cpuAt z' i = cpuAt z i := by
  obtain ⟨f, n, e⟩ := h.cache i.1
  unfold cpuAt
  rw [e]

theorem SameObjects.flags (h : SameObjects z z') (d : Nat) :
    (z'.cache d).flags = (z.cache d).flags := by
  obtain ⟨f, n, e⟩ := h.cache d
  rw [e]

theorem SameObjects.arr_eq (h : SameObjects z z') (p : Nat × Nat) : arr z' p = arr z p := by
  obtain ⟨n, e⟩ := h.page p.2
  exact arr_congr (by rw [e]; exact ⟨rfl, rfl⟩) (h.sizes p.1)

theorem SameObjects.grows (h : SameObjects z z') (live : List (Nat × Nat)) (out : List Nat) :
    Grows z live out z' live out where
  marked := fun hm => by
    refine ⟨fun p hp x hx hno => ?_, fun x hx hno => ?_⟩
    · rw [h.pages] at hp
      rw [h.arr_eq] at hx
      rw [h.mem]
      exact hm.free p hp x hx hno
    · rw [h.mem]
      exact hm.rest x hx hno
  quiet := fun hq => hq.congr h.cpuAt_eq h.flags h.cpu
  flags := h.flags
  out := fun _ hx => hx

/-! ## In and out of the per-CPU layer -/

theorem grows_wake (z : SlubAllocator) (live : List (Nat × Nat)) (out : List Nat)
    (hper : percpu (z.cache c)) (f : SlubCpuCache → SlubCpuCache) (p : Nat × Nat) :
    Grows z live out (z.modCpu c z.cpuIndex f) (p :: live) out where
  marked := fun hm => hm.wake rfl rfl (arr_modCpu z c z.cpuIndex f)
  quiet := fun hq => hq.modCpu hper f
  flags := flags_modCpu z c z.cpuIndex f
  out := fun _ hx => hx

theorem grows_restBatch (z : SlubAllocator) (live : List (Nat × Nat)) (out : List Nat)
    (hper : percpu (z.cache c)) (ho : z.mem.mark o = slubMagic) :
    Grows z live out (z.pushBatch c o) (live.erase (c, o)) out where
  marked := fun hm => by
    refine ⟨fun p hp x hx hno => ?_, (hm.drop (c := c) ho).rest⟩
    rw [show arr (z.pushBatch c o) p = arr z p from arr_modCpu z c z.cpuIndex _ p] at hx
    exact hm.free p hp x hx hno
  quiet := fun hq => hq.modCpu hper _
  flags := flags_modCpu z c z.cpuIndex _
  out := fun _ hx => hx

end SlubAllocator

end KmOS
