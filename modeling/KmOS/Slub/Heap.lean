/-
# `KmOS.Slub.Heap` — SLUB conservation across the per-CPU layer

The invariant along whole runs, and what it means for clients (`Conserved`).
-/
import KmOS.Lib.Keyed
import KmOS.Lib.Run
import KmOS.Slub.Free

namespace KmOS

namespace SlubAllocator

variable {z z' : SlubAllocator} {cs : List Nat} {live blocks : List (Nat × Nat)} {g : Ghost}
  {a c o : Nat}

/-! ## New caches -/

theorem pageBytes_div_le (size order : Nat) : pageBytes order / size * size ≤ pageBytes order :=
  Nat.div_mul_le_self _ _

theorem CacheOk.newCache {next : Nat} {size align flags : UInt32}
    (hsome : 0 < (newCache 0 size align 0).objectsPerPage) : CacheOk (newCache next size align flags) where
  size := by
    show sizeofSlubObject ≤ objectSize size align
    unfold objectSize
    split
    · exact Nat.le_refl _
    · next h => exact Nat.le_of_not_lt h
  some := hsome
  fit := pageBytes_div_le _ _

/-- The lists of the per-CPU caches, when the cache `c` is new. -/
def noneAt {α : Type} (f : Nat × α → List Nat) (c : Nat) : Nat × α → List Nat :=
  fun i => if i.1 = c then [] else f i

theorem noneAt_of_ne {α : Type} {f : Nat × α → List Nat} {i : Nat × α} (h : i.1 ≠ c) :
    noneAt f c i = f i := if_neg h

theorem noneAt_self {α : Type} {f : Nat × α → List Nat} {i : Nat × α} (h : i.1 = c) :
    noneAt f c i = [] := if_pos h

section
variable {size align flags : UInt32} {out : List Nat} {fl : Nat → List Nat}

theorem cache_cacheCreate_of_ne {d : Nat} (hd : d ≠ c) :
    (z.cacheCreate size align flags (some c)).1.cache d = z.cache d :=
  Function.update_of_ne hd _ _

theorem cache_cacheCreate_self : (z.cacheCreate size align flags (some c)).1.cache c =
    newCache z.cacheChain size align flags := Function.update_self c _ z.cache

/-- The pages of the old caches keep their sizes. -/
theorem Pages.sizes_cacheCreate (h : Pages z cs out fl) (hc : c ∉ cs) {p : Nat × Nat}
    (hp : p ∈ z.pages) : SameSizes (z.cache p.1)
      ((z.cacheCreate size align flags (some c)).1.cache p.1) := by
  rw [cache_cacheCreate_of_ne (ne_of_mem_of_not_mem (h.owner p hp) hc)]
  exact .refl _

theorem Pages.arr_cacheCreate (h : Pages z cs out fl) (hc : c ∉ cs) {p : Nat × Nat}
    (hp : p ∈ z.pages) : arr (z.cacheCreate size align flags (some c)).1 p = arr z p :=
  arr_congr ⟨rfl, rfl⟩ (h.sizes_cacheCreate hc hp)

theorem Pages.cacheCreate (h : Pages z cs out fl) (hc : c ∉ cs)
    (hsome : 0 < (newCache 0 size align 0).objectsPerPage) :
    Pages (z.cacheCreate size align flags (some c)).1 (c :: cs) out fl := by
  refine ⟨fun d hd => ?_, fun p hp => List.mem_cons_of_mem c (h.owner p hp), h.nodup, h.regions,
    fun p hp => ?_, fun d hd => ?_, h.out_nodup, fun x hx => ?_⟩
  · rcases List.mem_cons.mp hd with rfl | hd
    · rw [cache_cacheCreate_self]
      exact CacheOk.newCache hsome
    · rw [cache_cacheCreate_of_ne (ne_of_mem_of_not_mem hd hc)]
      exact h.cache d hd
  · exact (h.page p hp).congr (.refl _) (h.sizes_cacheCreate hc hp) (fun _ _ => rfl)
      (List.Perm.refl _)
  · rcases List.mem_cons.mp hd with rfl | hd
    · have hnil : pagesOf z d = [] :=
        List.eq_nil_iff_forall_not_mem.mpr (fun b hb => hc (h.owner _ (mem_pagesOf.mp hb)))
      have hnil' : pagesOf (z.cacheCreate size align flags (some d)).1 d = [] := hnil
      rw [cache_cacheCreate_self, hnil']
      rfl
    · rw [cache_cacheCreate_of_ne (ne_of_mem_of_not_mem hd hc)]
      exact h.active d hd
  · obtain ⟨p, hp, hinp⟩ := h.out_page x hx
    exact ⟨p, hp, by rw [h.arr_cacheCreate hc hp]; exact hinp⟩

theorem mem_noneAt {α : Type} {f : Nat × α → List Nat} (hc : c ∉ cs) {i : Nat × α}
    (hi : i.1 ∈ c :: cs) {b : Nat} : b ∈ noneAt f c i ↔ i.1 ∈ cs ∧ b ∈ f i := by
  rcases List.mem_cons.mp hi with e | hi
  · rw [noneAt_self e]
    exact ⟨nofun, fun hb => absurd (e ▸ hb.1) hc⟩
  · rw [noneAt_of_ne (ne_of_mem_of_not_mem hi hc)]
    exact ⟨fun hb => ⟨hi, hb⟩, And.right⟩

theorem Lists.cacheCreate {L : Nat × SlubList → List Nat} (h : Lists z cs L) (hc : c ∉ cs) :
    Lists (z.cacheCreate size align flags (some c)).1 (c :: cs) (noneAt L c) := by
  refine ⟨fun i hi => ?_, fun i hi => ?_, fun i j hi hj b hb hb' => ?_⟩
  · rcases List.mem_cons.mp hi with e | hi
    · rw [noneAt_self e]
      show headOf _ i = 0
      unfold headOf
      rw [e, cache_cacheCreate_self]
      rfl
    · have hne := ne_of_mem_of_not_mem hi hc
      rw [noneAt_of_ne hne]
      have hh : headOf (z.cacheCreate size align flags (some c)).1 i = headOf z i := by
        unfold headOf
        rw [cache_cacheCreate_of_ne hne]
      rw [hh]
      exact (h.list i hi).congr (fun _ _ => rfl)
  · rcases List.mem_cons.mp hi with e | hi
    · rw [noneAt_self e]
      exact List.nodup_nil
    · rw [noneAt_of_ne (ne_of_mem_of_not_mem hi hc)]
      exact h.nodup i hi
  · obtain ⟨hi', hb⟩ := (mem_noneAt hc hi).mp hb
    obtain ⟨hj', hb'⟩ := (mem_noneAt hc hj).mp hb'
    exact h.unique i j hi' hj' b hb hb'

/-- The new cache has nothing at rest. -/
theorem rest_cacheCreate (hc : c ∉ cs) (cf : Nat × Nat → List Nat) :
    rest (z.cacheCreate size align flags (some c)).1 (c :: cs) (noneAt cf c) = rest z cs cf := by
  have hcons : places (c :: cs) = (List.range slubMaxCpus).map (fun k => (c, k)) ++ places cs := rfl
  unfold rest
  rw [hcons, List.flatMap_append]
  have hnew : ((List.range slubMaxCpus).map (fun k => (c, k))).flatMap (fun i =>
      (batch (z.cacheCreate size align flags (some c)).1 i ++ noneAt cf c i).map
        (fun o => (i.1, o))) = [] := by
    refine List.flatMap_eq_nil_iff.mpr (fun i hi => ?_)
    obtain ⟨k, _, rfl⟩ := List.mem_map.mp hi
    unfold batch cpuAt
    rw [cache_cacheCreate_self, noneAt_self (show (c, k).1 = c from rfl)]
    rfl
  rw [hnew, List.nil_append]
  refine List.flatMap_congr (fun i hi => ?_)
  have hi' : i.1 ≠ c := ne_of_mem_of_not_mem (mem_places.mp hi).1 hc
  unfold batch cpuAt
  rw [cache_cacheCreate_of_ne hi', noneAt_of_ne hi']

theorem Cpu.cacheCreate {cf : Nat × Nat → List Nat} (h : Cpu z cs live out cf)
    (hpages : Pages z cs out fl) (hc : c ∉ cs) :
    Cpu (z.cacheCreate size align flags (some c)).1 (c :: cs) live out (noneAt cf c) := by
  have hplaces : ∀ i ∈ places (c :: cs), i.1 = c ∨ i ∈ places cs ∧ i.1 ≠ c := by
    intro i hi
    obtain ⟨h₁, h₂⟩ := mem_places.mp hi
    exact (List.mem_cons.mp h₁).imp id
      (fun h₁ => ⟨mem_places.mpr ⟨h₁, h₂⟩, ne_of_mem_of_not_mem h₁ hc⟩)
  refine ⟨fun i hi => ?_, fun i hi => ?_, fun i hi => ?_, ?_, ?_⟩
  · unfold cpuAt
    rcases hplaces i hi with e | ⟨hi, hne⟩
    · rw [e, cache_cacheCreate_self]
      exact Nat.zero_le _
    · rw [cache_cacheCreate_of_ne hne]
      exact h.count i hi
  · unfold cpuAt
    rcases hplaces i hi with e | ⟨hi, hne⟩
    · rw [e, cache_cacheCreate_self]
      rfl
    · rw [cache_cacheCreate_of_ne hne]
      exact h.limit i hi
  · unfold cpuAt
    rcases hplaces i hi with e | ⟨hi, hne⟩
    · rw [noneAt_self e, e, cache_cacheCreate_self]
      rfl
    · rw [noneAt_of_ne hne, cache_cacheCreate_of_ne hne]
      exact h.list i hi
  · rw [rest_cacheCreate hc]
    exact h.outside
  · rw [rest_cacheCreate hc]
    intro p hp
    obtain ⟨b, hb, hinb⟩ := h.owner p hp
    exact ⟨b, hb, by rw [hpages.arr_cacheCreate hc hb]; exact hinb⟩

end

/-- **`cache_create`.** -/
theorem SlubInv.cacheCreate (h : SlubInv z cs live blocks g 0) {size align : UInt32} (flags : UInt32) (hc0 : c ≠ 0)
    (hcw : c < wordSize) (hc : c ∉ cs) (hsome : 0 < (newCache 0 size align 0).objectsPerPage) :
    SlubInv (z.cacheCreate size align flags (some c)).1 (c :: cs) live blocks
      ⟨g.out, noneAt g.lists c, g.fl, noneAt g.cf c⟩ 0 := by
  refine ⟨?_, List.nodup_cons.mpr ⟨hc, h.nodup⟩, ?_, fun n => ?_, h.lists.cacheCreate hc,
    fun d hd b => ?_, fun i hi b hb _ => ?_, h.pages.cacheCreate hc hsome,
    h.cpu.cacheCreate h.pages hc, h.blocks⟩
  · refine h.chain.push hc0 ?_ (fun d hd => ?_)
    · show ((z.cacheCreate size align flags (some c)).1.cache c).next = z.cacheChain
      rw [cache_cacheCreate_self]
      rfl
    · rw [cache_cacheCreate_of_ne (ne_of_mem_of_not_mem hd hc)]
  · intro d hd
    rcases List.mem_cons.mp hd with rfl | hd
    · exact hcw
    · exact h.small d hd
  · exact (h.sizeCaches n).imp id (List.mem_cons_of_mem c)
  · constructor
    · intro hb
      have hd' := h.pages.owner _ hb
      obtain ⟨l, hl⟩ := (h.onList d hd' b).mp hb
      exact ⟨l, (mem_noneAt hc hd).mpr ⟨hd', hl⟩⟩
    · rintro ⟨l, hl⟩
      obtain ⟨hd', hl⟩ := (mem_noneAt hc hd).mp hl
      exact (h.onList d hd' b).mpr ⟨l, hl⟩
  · obtain ⟨hi', hb'⟩ := (mem_noneAt hc hi).mp hb
    exact h.placed i hi' b hb' (h.ne_zero hi' hb')

theorem Marked.cacheCreate (h : Marked z live out) (hpages : Pages z cs out fl) (hc : c ∉ cs)
    (size align flags : UInt32) :
    Marked (z.cacheCreate size align flags (some c)).1 live out where
  free := fun p hp x hx hno => by
    rw [hpages.arr_cacheCreate hc (show p ∈ z.pages from hp)] at hx
    exact h.free p hp x hx hno
  rest := h.rest

theorem Quiet.cacheCreate (h : Quiet z) (c : Nat) (size align flags : UInt32) :
    Quiet (z.cacheCreate size align flags (some c)).1 := by
  intro i hi
  unfold Idle cpuAt
  by_cases e : i.1 = c
  · rw [e, cache_cacheCreate_self]
    exact ⟨rfl, rfl⟩
  · rw [cache_cacheCreate_of_ne e] at hi ⊢
    exact h i hi

/-! ## Clients' writes -/

theorem Cpu.nodup {out : List Nat} {fl : Nat → List Nat} {cf : Nat × Nat → List Nat}
    (h : Cpu z cs live out cf) (hp : Pages z cs out fl) :
    ((live ++ rest z cs cf).map Prod.snd).Nodup :=
  h.outside.nodup_iff.mp hp.out_nodup

/-- A byte a client may write is not part of the link of an object `x`, unless
that is an object the client holds. -/
theorem SlubInv.outside (h : SlubInv z cs live blocks g 0) {addr x : Nat} {p : Nat × Nat}
    (hw : (∃ l ∈ live, l.2 ≤ addr ∧ addr < l.2 + (z.cache l.1).size) ∨
      ∀ p ∈ z.pages, addr < (z.page p.2).pageBase ∨ (z.page p.2).pageBase + SlubHeap.pageLen z p ≤ addr)
    (hp : p ∈ z.pages) (hx : x ∈ (arr z p).objs) (hnot : x ∉ live.map Prod.snd) :
    addr < x ∨ x + 8 ≤ addr := by
  have hbd := (h.pages.page p hp).fits.bounds hx
  have hsize := (h.pages.page p hp).fits.size
  rcases hw with ⟨l, hl, hlo, hhi⟩ | hout
  · obtain ⟨b, hb, hinb⟩ := h.cpu.owner l (List.mem_append_left _ hl)
    have hlout : l.2 ∈ g.out := h.cpu.live_out (c := l.1) hl
    have hobj := (h.pages.page _ hb).keeps.out_obj hlout hinb
    have hap := h.pages.apart hp hb hx hobj
    have hne : x ≠ l.2 := fun e => hnot (e ▸ List.mem_map.mpr ⟨l, hl, rfl⟩)
    have hls : (arr z (l.1, b)).size = (z.cache l.1).size := rfl
    omega
  · have := hout p hp
    unfold arr at hbd hsize
    dsimp only at hbd hsize
    omega

theorem SlubInv.live_out (h : SlubInv z cs live blocks g a) {x : Nat} (hx : x ∈ live.map Prod.snd) :
    x ∈ g.out := by
  obtain ⟨p, hp, rfl⟩ := List.mem_map.mp hx
  exact h.cpu.live_out (c := p.1) hp

theorem SlubInv.write (h : SlubInv z cs live blocks g 0) {addr : Nat} (byte : UInt8)
    (hw : (∃ l ∈ live, l.2 ≤ addr ∧ addr < l.2 + (z.cache l.1).size) ∨
      ∀ p ∈ z.pages, addr < (z.page p.2).pageBase ∨ (z.page p.2).pageBase + SlubHeap.pageLen z p ≤ addr) :
    SlubInv { z with mem := z.mem.store8 addr byte } cs live blocks g 0 := by
  have hlink : ∀ p ∈ z.pages, ∀ x ∈ (arr z p).objs, x ∉ live.map Prod.snd →
      (z.mem.store8 addr byte).link x = z.mem.link x := by
    intro p hp x hx hnot
    have := h.outside hw hp hx hnot
    exact (Memory.link_mark_congr (fun y _ _ => Function.update_of_ne (by omega) _ _)).1
  have hpages : Pages { z with mem := z.mem.store8 addr byte } cs g.out g.fl := by
    refine h.pages.congr rfl (fun _ => .refl _) (fun _ => .refl _) (fun _ => rfl) (fun p hp x hx => ?_)
    have hok := h.pages.page p hp
    exact hlink p hp x (hok.keeps.free_obj hx)
      (fun hm => hok.keeps.not_out hok.fits hx (h.live_out hm))
  have hcpu : Cpu { z with mem := z.mem.store8 addr byte } cs live g.out g.cf := by
    refine h.cpu.congr (fun _ _ => rfl) (fun i hi x hx => ?_) (fun _ _ _ _ h₁ h₂ => ⟨h₁, h₂⟩)
    obtain ⟨p, hp, _, hobj⟩ := h.pages.out_obj (h.cpu.cf_out hi hx)
    refine hlink p hp x hobj (fun hm => ?_)
    -- an object at rest is nobody's
    have hnd := h.cpu.nodup h.pages
    rw [List.map_append] at hnd
    refine (List.nodup_append.mp hnd).2.2 x hm x ?_ rfl
    exact List.mem_map.mpr ⟨(i.1, x), mem_rest.mpr ⟨i, hi, rfl, Or.inr hx⟩, rfl⟩
  have hf : Frame z { z with mem := z.mem.store8 addr byte } :=
    ⟨rfl, rfl, rfl, rfl, rfl, fun _ => rfl, fun _ => rfl, fun _ => rfl, fun _ => rfl, fun _ => rfl,
      fun _ => .refl _, fun _ => rfl⟩
  exact h.frame hf hpages hcpu (fun b _ hb => ⟨hb, rfl, rfl⟩)

/-- A client's write leaves the magic words of objects that are not in clients'
hands alone. -/
theorem SlubInv.marked_write (h : SlubInv z cs live blocks g 0) {addr : Nat} (byte : UInt8)
    (hw : (∃ l ∈ live, l.2 ≤ addr ∧ addr < l.2 + (z.cache l.1).size) ∨
      ∀ p ∈ z.pages, addr < (z.page p.2).pageBase ∨ (z.page p.2).pageBase + SlubHeap.pageLen z p ≤ addr)
    (hm : Marked z live g.out) : Marked { z with mem := z.mem.store8 addr byte } live g.out := by
  refine hm.congr h.pages (fun p hp => hp) (fun p _ => rfl) (fun p hp x hx hno => ?_)
    (fun x hx => h.live_out hx)
  have := h.outside hw hp hx hno
  exact (Memory.link_mark_congr (fun y _ _ => Function.update_of_ne (by omega) _ _)).2

/-! ## Small changes -/

/-- What the buddy allocator is going to answer does not matter. -/
theorem SlubInv.withBuddy (h : SlubInv z cs live blocks g 0) (buddy : List (Option SlubMem)) :
    SlubInv { z with buddy := buddy } cs live blocks g 0 :=
  { h with
    lists := h.lists.congr (fun _ _ => rfl) (fun _ _ _ _ => rfl)
    pages := h.pages.congr rfl (fun _ => .refl _) (fun _ => .refl _) (fun _ => rfl) (fun _ _ _ _ => rfl)
    cpu := h.cpu.congr (fun _ _ => rfl) (fun _ _ _ _ => rfl) (fun _ _ _ _ h₁ h₂ => ⟨h₁, h₂⟩) }

theorem SlubInv.withSizeCache (h : SlubInv z cs live blocks g 0) (n : Nat) (hc : c = 0 ∨ c ∈ cs) :
    SlubInv { z with sizeCaches := Function.update z.sizeCaches n c } cs live blocks g 0 := by
  have hsize : ∀ k, Function.update z.sizeCaches n c k = 0 ∨ Function.update z.sizeCaches n c k ∈ cs := by
    intro k
    by_cases e : k = n
    · rw [e, Function.update_self]
      exact hc
    · rw [Function.update_of_ne e]
      exact h.sizeCaches k
  exact
    { h with
      sizeCaches := hsize
      lists := h.lists.congr (fun _ _ => rfl) (fun _ _ _ _ => rfl)
      pages := h.pages.congr rfl (fun _ => .refl _) (fun _ => .refl _) (fun _ => rfl) (fun _ _ _ _ => rfl)
      cpu := h.cpu.congr (fun _ _ => rfl) (fun _ _ _ _ => rfl) (fun _ _ _ _ h₁ h₂ => ⟨h₁, h₂⟩) }

theorem SlubInv.withBlocks {blocks' : List (Nat × Nat)} (h : SlubInv z cs live blocks g 0)
    (hb : ∀ p ∈ z.pages, ∀ k ∈ blocks',
      SlubHeap.Off (z.page p.2).pageBase (SlubHeap.pageLen z p) k.1 k.2) :
    SlubInv z cs live blocks' g 0 :=
  { h with blocks := hb }

theorem SlubInv.findSizeCache (h : SlubInv z cs live blocks g 0) (size : UInt32) :
    z.findSizeCache size = 0 ∨ z.findSizeCache size ∈ cs := by
  unfold SlubAllocator.findSizeCache
  split
  · exact h.sizeCaches _
  · exact Or.inl rfl

end SlubAllocator

namespace SlubHeap

open SlubAllocator

variable {h : SlubHeap} {g : Ghost} {c o : Nat}

/-- The invariant of a heap; blocks from the buddy allocator are not empty. -/
structure HeapInv (h : SlubHeap) (g : Ghost) : Prop where
  inv : SlubInv h.slub h.caches h.live h.blocks g 0
  pos : ∀ k ∈ h.blocks, 0 < k.2

theorem HeapInv.live_nodup (hi : HeapInv h g) : (h.live.map Prod.snd).Nodup := by
  have hnd := hi.inv.cpu.nodup hi.inv.pages
  rw [List.map_append] at hnd
  exact (List.nodup_append.mp hnd).1

/-- **What a call keeps**: magic words and idle CPUs, and no object returns to its
page that is at rest or belongs to a cache with `SLUB_CACHE_PERCPU`. -/
structure StepCarries (h : SlubHeap) (g : Ghost) (h' : SlubHeap) (g' : Ghost) : Prop where
  marked : Marked h.slub h.live g.out → Marked h'.slub h'.live g'.out
  quiet : Quiet h.slub → Quiet h'.slub
  caches : ∀ d ∈ h.caches, d ∈ h'.caches ∧ (h'.slub.cache d).flags = (h.slub.cache d).flags
  rest : ∀ x ∈ g.out, (∀ p ∈ h.live, p.2 = x → percpu (h.slub.cache p.1)) → x ∈ g'.out

theorem StepCarries.refl (h : SlubHeap) (g : Ghost) : StepCarries h g h g :=
  ⟨id, id, fun _ hd => ⟨hd, rfl⟩, fun _ hx _ => hx⟩

/-- A block from the buddy allocator lies in no page. -/
theorem HeapInv.block_outside (hi : HeapInv h g) (ho : o ∈ h.blocks.map Prod.fst) :
    ∀ p ∈ h.slub.pages, ¬ (arr h.slub p).Has o := by
  intro p hp hin
  obtain ⟨k, hk, rfl⟩ := List.mem_map.mp ho
  have hoff := hi.inv.blocks p hp k hk
  have hpos := hi.pos k hk
  unfold ObjArray.Has arr at hin
  unfold Off at hoff
  dsimp only at hin
  omega

theorem answers_of_buddyOk {buddy : List (Option SlubMem)} (hb : h.BuddyOk c buddy) :
    Answers { h.slub with buddy := buddy } h.blocks c := by
  obtain ⟨hmem, hpair⟩ := hb
  refine ⟨fun b hm => ?_, fun b hm k hk => (hmem b hm).2.2.2.2.2 k hk, hpair⟩
  obtain ⟨h₁, h₂, h₃, h₄, h₅, _⟩ := hmem b hm
  exact ⟨h₁, h₂, h₃, h₄, h₅⟩

theorem HeapInv.takeFrom (hi : HeapInv h g) (hc : c ∈ h.caches) {buddy : List (Option SlubMem)}
    (hb : h.BuddyOk c buddy) :
    ∃ h' g', h.takeFrom c buddy = some h' ∧ HeapInv h' g' ∧ StepCarries h g h' g' := by
  obtain ⟨z', obj, g', hz', hinv, hgrow⟩ :=
    (hi.inv.withBuddy buddy).cacheAlloc hc (answers_of_buddyOk hb)
  refine ⟨{ h with slub := z', live := if obj = 0 then h.live else (c, obj) :: h.live }, g', ?_,
    ⟨hinv, hi.pos⟩, ⟨fun hm => hgrow.marked ⟨hm.free, hm.rest⟩, fun hq => hgrow.quiet hq,
      fun d hd => ⟨hd, hgrow.flags d⟩, fun x hx _ => hgrow.out x hx⟩⟩
  unfold SlubHeap.takeFrom
  rw [hz']
  rfl

theorem HeapInv.freeObj (hi : HeapInv h g) (hc : (c, o) ∈ h.live) (hmagic : h.slub.mem.mark o = slubMagic) :
    ∃ h' g', h.step (.free o) = some h' ∧ HeapInv h' g' ∧ StepCarries h g h' g' := by
  obtain ⟨z', g', hz', hinv, hcarry, hout⟩ := hi.inv.cacheFree hc hmagic
  have hsub : ∀ k ∈ h.blocks.eraseP (fun p => decide (p.1 = o)), k ∈ h.blocks :=
    fun k hk => List.mem_of_mem_eraseP hk
  have hlive := eraseP_key (f := Prod.snd) hi.live_nodup hc
  refine ⟨{ h with
    slub := z'
    live := h.live.eraseP (fun p => decide (p.2 = o))
    blocks := h.blocks.eraseP (fun p => decide (p.1 = o)) }, g', ?_,
    ⟨?_, fun k hk => hi.pos k (hsub k hk)⟩, ⟨?_, hcarry.quiet, fun d hd => ⟨hd, hcarry.flags d⟩, ?_⟩⟩
  · rw [step, hi.inv.free_eq hc, hz']
    rfl
  · dsimp only
    rw [hlive]
    exact hinv.withBlocks (fun p hp k hk => hinv.blocks p hp k (hsub k hk))
  · dsimp only
    rw [hlive]
    exact hcarry.marked
  · exact fun x hx hp => hout x hx (or_iff_not_imp_left.mpr fun e => hp _ hc (not_not.mp e).symm)

theorem HeapInv.freeBlock (hi : HeapInv h g) (ho : o ∈ h.blocks.map Prod.fst) :
    ∃ h' g', h.step (.free o) = some h' ∧ HeapInv h' g' ∧ StepCarries h g h' g' := by
  have hsub : ∀ k ∈ h.blocks.eraseP (fun p => decide (p.1 = o)), k ∈ h.blocks :=
    fun k hk => List.mem_of_mem_eraseP hk
  have hlive : h.live.eraseP (fun p => decide (p.2 = o)) = h.live := by
    refine List.eraseP_of_forall_not (fun p hp e => ?_)
    obtain ⟨b, hb, hin⟩ := hi.inv.cpu.owner p (List.mem_append_left _ hp)
    have he : p.2 = o := by simpa using e
    exact hi.block_outside ho _ hb (he ▸ hin)
  refine ⟨{ h with
    live := h.live.eraseP (fun p => decide (p.2 = o))
    blocks := h.blocks.eraseP (fun p => decide (p.1 = o)) }, g, ?_,
    ⟨?_, fun k hk => hi.pos k (hsub k hk)⟩, ⟨?_, id, fun _ hd => ⟨hd, rfl⟩, fun _ hx _ => hx⟩⟩
  · rw [step, hi.inv.free_other (hi.block_outside ho)]
    rfl
  · dsimp only
    rw [hlive]
    exact hi.inv.withBlocks (fun p hp k hk => hi.inv.blocks p hp k (hsub k hk))
  · dsimp only
    rw [hlive]
    exact id

theorem HeapInv.carries_cacheCreate (hi : HeapInv h g) (hc : c ∉ h.caches)
    (size align flags : UInt32) :
    StepCarries h g
      { h with slub := (h.slub.cacheCreate size align flags (some c)).1, caches := c :: h.caches }
      ⟨g.out, noneAt g.lists c, g.fl, noneAt g.cf c⟩ where
  marked := fun hm => hm.cacheCreate hi.inv.pages hc size align flags
  quiet := fun hq => hq.cacheCreate c size align flags
  caches := fun d hd => by
    refine ⟨List.mem_cons_of_mem c hd, ?_⟩
    dsimp only
    rw [cache_cacheCreate_of_ne (ne_of_mem_of_not_mem hd hc)]
  rest := fun _ hx _ => hx

/-- **One call.**  It returns, and the invariant survives it. -/
theorem HeapInv.step (hi : HeapInv h g) {call : SlubCall} (hok : h.Allowed call) :
    ∃ h' g', h.step call = some h' ∧ HeapInv h' g' ∧ StepCarries h g h' g' := by
  cases call with
  | create size align flags cache =>
      obtain ⟨hcache, hsome⟩ := hok
      cases cache with
      | none => exact ⟨_, g, rfl, ⟨hi.inv, hi.pos⟩, .refl h g⟩
      | some c =>
          obtain ⟨hc0, hcw, hc⟩ := hcache c rfl
          exact ⟨_, _, rfl, ⟨hi.inv.cacheCreate flags hc0 hcw hc hsome, hi.pos⟩,
            hi.carries_cacheCreate hc size align flags⟩
  | cacheAlloc c buddy => exact hi.takeFrom hok.1 hok.2
  | cacheFree c obj =>
      obtain ⟨z', g', hz', hinv, hcarry, hout⟩ := hi.inv.cacheFree hok.1 hok.2
      exact ⟨{ h with slub := z', live := h.live.erase (c, obj) }, g',
        by rw [SlubHeap.step, hz']; rfl, ⟨hinv, hi.pos⟩,
        ⟨hcarry.marked, hcarry.quiet, fun d hd => ⟨hd, hcarry.flags d⟩, fun x hx hp =>
          hout x hx (or_iff_not_imp_left.mpr fun e => hp _ hok.1 (not_not.mp e).symm)⟩⟩
  | alloc size buddy block =>
      obtain ⟨hbuddy, hblock⟩ := hok
      rw [SlubHeap.step]
      by_cases hz : size = 0
      · rw [if_pos hz]
        exact ⟨h, g, rfl, hi, .refl h g⟩
      rw [if_neg hz]
      dsimp only
      by_cases hc : h.slub.findSizeCache size = 0
      · rw [if_pos hc]
        by_cases hb : block = 0
        · rw [if_pos hb]
          exact ⟨h, g, rfl, hi, .refl h g⟩
        · rw [if_neg hb]
          refine ⟨_, g, rfl, ⟨hi.inv.withBlocks (fun p hp k hk => ?_), fun k hk => ?_⟩,
            ⟨id, id, fun _ hd => ⟨hd, rfl⟩, fun _ hx _ => hx⟩⟩
          · rcases List.mem_cons.mp hk with rfl | hk
            · exact (hblock.resolve_left hb p hp).symm
            · exact hi.inv.blocks p hp k hk
          · rcases List.mem_cons.mp hk with rfl | hk
            · exact Nat.pos_of_ne_zero (fun e => hz (UInt32.toNat_inj.mp e))
            · exact hi.pos k hk
      · rw [if_neg hc]
        exact hi.takeFrom ((hi.inv.findSizeCache size).resolve_left hc) hbuddy
  | free obj =>
      rcases hok with ⟨hl, hmagic⟩ | hb
      · obtain ⟨p, hp, rfl⟩ := List.mem_map.mp hl
        exact hi.freeObj (c := p.1) hp hmagic
      · exact hi.freeBlock hb
  | write addr byte =>
      exact ⟨_, g, rfl, ⟨hi.inv.write byte hok, hi.pos⟩, ⟨hi.inv.marked_write byte hok,
        fun hq => hq.congr (fun _ => rfl) (fun _ => rfl) rfl, fun _ hd => ⟨hd, rfl⟩, fun _ hx _ => hx⟩⟩

/-! ## `init` -/

/-- Every size cache has at least one object a page. -/
theorem sizeCache_some : ∀ p ∈ cacheSizes, 0 < (newCache 0 p.2 slubAlign 0).objectsPerPage := by
  decide +kernel

theorem HeapInv.initCache {p : (Nat × UInt32) × Option Nat} (hi : HeapInv h g) (hp : p.1 ∈ cacheSizes)
    (hd : ∀ c ∈ p.2, c ≠ 0 ∧ c < wordSize ∧ c ∉ h.caches) :
    ∃ g', HeapInv (initCache h p) g' ∧ StepCarries h g (initCache h p) g' := by
  obtain ⟨⟨n, size⟩, cache⟩ := p
  cases cache with
  | none =>
      refine ⟨g, ⟨hi.inv.withSizeCache n (Or.inl rfl), hi.pos⟩, ?_⟩
      exact ⟨fun hm => ⟨hm.free, hm.rest⟩, fun hq => hq.congr (fun _ => rfl) (fun _ => rfl) rfl,
        fun _ hd => ⟨hd, rfl⟩, fun _ hx _ => hx⟩
  | some c =>
      obtain ⟨hc0, hcw, hc⟩ := hd c rfl
      have hinv := hi.inv.cacheCreate slubCachePercpu hc0 hcw hc (sizeCache_some _ hp)
      have hcarry := hi.carries_cacheCreate hc size slubAlign slubCachePercpu
      refine ⟨_, ⟨hinv.withSizeCache n (Or.inr List.mem_cons_self), hi.pos⟩, ?_⟩
      exact ⟨fun hm => ⟨(hcarry.marked hm).free, (hcarry.marked hm).rest⟩,
        fun hq => (hcarry.quiet hq).congr (fun _ => rfl) (fun _ => rfl) rfl, hcarry.caches, hcarry.rest⟩

theorem HeapInv.initLoop : ∀ (ps : List ((Nat × UInt32) × Option Nat)) {h : SlubHeap} {g : Ghost},
    HeapInv h g → (∀ p ∈ ps, p.1 ∈ cacheSizes) →
    (∀ c ∈ (ps.map Prod.snd).reduceOption, c ≠ 0 ∧ c < wordSize ∧ c ∉ h.caches) →
    (ps.map Prod.snd).reduceOption.Nodup → Marked h.slub h.live g.out → Quiet h.slub →
    ∃ g', HeapInv (ps.foldl SlubHeap.initCache h) g' ∧
      Marked (ps.foldl SlubHeap.initCache h).slub (ps.foldl SlubHeap.initCache h).live g'.out ∧
      Quiet (ps.foldl SlubHeap.initCache h).slub := by
  intro ps
  induction ps with
  | nil => intro h g hi _ _ _ hm hq; exact ⟨g, hi, hm, hq⟩
  | cons p ps ih =>
      intro h g hi hsizes hd hnd hm hq
      have hp := hsizes p List.mem_cons_self
      have hps : ∀ q ∈ ps, q.1 ∈ cacheSizes := fun q hq => hsizes q (List.mem_cons_of_mem p hq)
      obtain ⟨q, cache⟩ := p
      cases cache with
      | none =>
          obtain ⟨g₁, h₁, hc₁⟩ := hi.initCache hp nofun
          exact ih h₁ hps hd hnd (hc₁.marked hm) (hc₁.quiet hq)
      | some c =>
          have hred : (((q, some c) :: ps).map Prod.snd).reduceOption =
              c :: (ps.map Prod.snd).reduceOption := rfl
          rw [hred] at hd hnd
          obtain ⟨hc, hnd⟩ := List.nodup_cons.mp hnd
          obtain ⟨g₁, h₁, hc₁⟩ := hi.initCache (p := (q, some c)) hp
            (fun d hdm => (Option.some.inj hdm) ▸ hd c List.mem_cons_self)
          refine ih h₁ hps (fun d hdm => ?_) hnd (hc₁.marked hm) (hc₁.quiet hq)
          obtain ⟨hd0, hdw, hdc⟩ := hd d (List.mem_cons_of_mem c hdm)
          refine ⟨hd0, hdw, fun hm => ?_⟩
          rcases List.mem_cons.mp hm with rfl | hm
          · exact hc hdm
          · exact hdc hm

theorem HeapInv.empty (mem : Memory) :
    HeapInv { slub := init mem, caches := [], live := [], blocks := [] }
      ⟨[], fun _ => [], fun _ => [], fun _ => []⟩ where
  inv :=
    { chain := rfl
      nodup := List.nodup_nil
      small := nofun
      sizeCaches := fun _ => Or.inl rfl
      lists := ⟨nofun, nofun, nofun⟩
      onList := nofun
      placed := nofun
      pages := ⟨nofun, nofun, List.nodup_nil, List.Pairwise.nil, nofun, nofun, List.nodup_nil, nofun⟩
      cpu := ⟨nofun, nofun, nofun, List.Perm.nil, nofun⟩
      blocks := nofun }
  pos := nofun

theorem descsOk_nil : DescsOk [] := ⟨nofun, List.nodup_nil⟩

theorem HeapInv.start (mem : Memory) {descs : List (Option Nat)} (hd : DescsOk descs) :
    ∃ g, HeapInv (start mem descs) g ∧
      Marked (start mem descs).slub (start mem descs).live g.out ∧ Quiet (start mem descs).slub := by
  have hsnd : ((cacheSizes.zip descs).map Prod.snd).reduceOption.Sublist descs.reduceOption :=
    (snd_zip_sublist cacheSizes descs).filterMap id
  refine HeapInv.initLoop _ (HeapInv.empty mem) (fun p hp => (List.of_mem_zip hp).1)
    (fun c hc => ?_) (hd.2.sublist hsnd) ⟨nofun, nofun⟩ (fun _ _ => ⟨rfl, rfl⟩)
  obtain ⟨h₁, h₂⟩ := hd.1 c (hsnd.subset hc)
  exact ⟨h₁, h₂, nofun⟩

/-! ## Conservation -/

/-- The objects in clients' hands, in batch arrays and on the CPUs' lists. -/
def outside (h : SlubHeap) (g : Ghost) : List Nat :=
  h.live.map Prod.snd ++ (places h.caches).flatMap (fun i => batch h.slub i ++ g.cf i)

/-- What holds of every page, list and counter: `g.fl` are the free objects of the
pages and `g.cf` the lists of the CPUs, both as the links spell them out.  Each
slot of a page is free or outside, once. -/
structure Conserved (h : SlubHeap) (g : Ghost) : Prop where
  lists : ∀ c ∈ h.caches, ∀ l, Sll 0 (pageNext h.slub) (headOf h.slub (c, l)) (g.lists (c, l)) ∧
    (g.lists (c, l)).Nodup
  full : ∀ c ∈ h.caches, ∀ a, (c, a) ∈ h.slub.pages →
    (a ∈ g.lists (c, .fullPages) ↔ (h.slub.page a).inuse = (h.slub.page a).objects)
  partly : ∀ c ∈ h.caches, ∀ a, (c, a) ∈ h.slub.pages →
    (a ∈ g.lists (c, .partialPages) ↔ (h.slub.page a).inuse ≠ (h.slub.page a).objects)
  listed : ∀ c ∈ h.caches, ∀ l, ∀ a ∈ g.lists (c, l), (c, a) ∈ h.slub.pages
  freelist : ∀ p ∈ h.slub.pages, Sll 0 h.slub.mem.link (h.slub.page p.2).freelist (g.fl p.2)
  cpuFreelist : ∀ i ∈ places h.caches, Sll 0 h.slub.mem.link (cpuAt h.slub i).freelist (g.cf i)
  slots : ∀ p ∈ h.slub.pages, (g.fl p.2 ++ (arr h.slub p).outOf (outside h g)).Perm
    (slots (h.slub.page p.2).pageBase (h.slub.cache p.1).size (h.slub.page p.2).objects)
  once : ∀ p ∈ h.slub.pages, (g.fl p.2 ++ (arr h.slub p).outOf (outside h g)).Nodup
  distinct : (outside h g).Nodup
  inuse : ∀ p ∈ h.slub.pages,
    (h.slub.page p.2).inuse = ((arr h.slub p).outOf (outside h g)).length
  active : ∀ c ∈ h.caches, (h.slub.cache c).activeObjects =
    ((pagesOf h.slub c).map (fun a => (h.slub.page a).inuse)).sum
  batch : ∀ i ∈ places h.caches, (cpuAt h.slub i).batchCount ≤ slubBatchSize
  owner : ∀ p ∈ h.live, ∃ a, (p.1, a) ∈ h.slub.pages ∧ (arr h.slub (p.1, a)).Has p.2

theorem rest_objects (z : SlubAllocator) (cs : List Nat) (cf : Nat × Nat → List Nat) :
    (rest z cs cf).map Prod.snd = (places cs).flatMap (fun i => SlubAllocator.batch z i ++ cf i) := by
  unfold rest
  rw [List.map_flatMap]
  refine List.flatMap_congr (fun i _ => ?_)
  rw [List.map_map]
  exact List.map_id _

theorem HeapInv.outside_perm (hi : HeapInv h g) : g.out.Perm (outside h g) := by
  have hperm := hi.inv.cpu.outside
  rwa [List.map_append, rest_objects] at hperm

theorem HeapInv.full_iff (hi : HeapInv h g) (hc : c ∈ h.caches) {a : Nat} (ha : (c, a) ∈ h.slub.pages)
    (l : SlubList) :
    a ∈ g.lists (c, l) ↔ (l = .fullPages ↔ (h.slub.page a).inuse = (h.slub.page a).objects) := by
  have hplaced : ∀ k, a ∈ g.lists (c, k) →
      (k = .fullPages ↔ (h.slub.page a).inuse = (h.slub.page a).objects) :=
    fun k hk => hi.inv.placed (c, k) hc a hk (hi.inv.ne_zero (i := (c, k)) hc hk)
  obtain ⟨k, hk⟩ := (hi.inv.onList c hc a).mp ha
  refine ⟨hplaced l, fun hl => ?_⟩
  have hkl : k = .fullPages ↔ l = .fullPages := (hplaced k hk).trans hl.symm
  cases k with
  | fullPages =>
      rw [hkl.mp rfl]
      exact hk
  | partialPages =>
      cases l with
      | partialPages => exact hk
      | fullPages => exact nomatch hkl.mpr rfl

theorem HeapInv.conserved (hi : HeapInv h g) : Conserved h g where
  lists := fun c hc l => ⟨hi.inv.lists.list (c, l) hc, hi.inv.lists.nodup (c, l) hc⟩
  full := fun c hc a ha => by
    rw [hi.full_iff hc ha]
    exact ⟨fun hl => hl.mp rfl, fun hl => ⟨fun _ => hl, fun _ => rfl⟩⟩
  partly := fun c hc a ha => by
    rw [hi.full_iff hc ha]
    exact ⟨fun hl e => absurd (hl.mpr e) (by decide), fun hl => ⟨nofun, fun e => absurd e hl⟩⟩
  listed := fun c hc l a ha => (hi.inv.onList c hc a).mpr ⟨l, ha⟩
  freelist := fun p hp => (hi.inv.pages.page p hp).keeps.list
  cpuFreelist := hi.inv.cpu.list
  slots := fun p hp => by
    have hok := hi.inv.pages.page p hp
    rw [hok.objects]
    exact ((ObjArray.outOf_perm hi.outside_perm.symm).append_left _).trans hok.keeps.slots
  once := fun p hp => by
    have hok := hi.inv.pages.page p hp
    exact ((ObjArray.outOf_perm hi.outside_perm).append_left _).nodup_iff.mp (hok.keeps.nodup hok.fits)
  distinct := hi.outside_perm.nodup_iff.mp hi.inv.pages.out_nodup
  inuse := fun p hp => by
    rw [(hi.inv.pages.page p hp).inuse, (ObjArray.outOf_perm hi.outside_perm).length_eq]
  active := hi.inv.pages.active
  batch := hi.inv.cpu.count
  owner := fun p hp => hi.inv.cpu.owner p (List.mem_append_left _ hp)

/-- **Along a run.** -/
theorem heapInv_of_reaches (mem : Memory) {descs : List (Option Nat)} (hd : DescsOk descs)
    (hr : Reaches SlubHeap.step Allowed (SlubHeap.start mem descs) h) :
    ∃ g, HeapInv h g ∧ Marked h.slub h.live g.out ∧ Quiet h.slub := by
  refine hr.invariant (I := fun h => ∃ g, HeapInv h g ∧ Marked h.slub h.live g.out ∧ Quiet h.slub)
    (HeapInv.start mem hd) ?_
  rintro u call u' ⟨g, hi, hm, hq⟩ hok hs
  obtain ⟨h', g', hs', hi', hcarry⟩ := hi.step hok
  rw [hs] at hs'
  obtain rfl := Option.some.inj hs'
  exact ⟨g', hi', hcarry.marked hm, hcarry.quiet hq⟩

/-- **SLUB conservation.**  After `init` and every sequence of calls the heap is
conserved, every call a client may make returns, and `free` of an object is
`cache_free` to the cache it came from. -/
theorem slub_conservation (mem : Memory) {descs : List (Option Nat)} (hd : DescsOk descs)
    (hr : Reaches SlubHeap.step Allowed (start mem descs) h) :
    (∃ g, Conserved h g) ∧ (∀ call, h.Allowed call → (h.step call).isSome) ∧
      ∀ c obj, (c, obj) ∈ h.live → h.slub.free obj = h.slub.cacheFree c obj := by
  obtain ⟨g, hi, _, _⟩ := heapInv_of_reaches mem hd hr
  refine ⟨⟨g, hi.conserved⟩, fun call hok => ?_, fun c obj ho => hi.inv.free_eq ho⟩
  obtain ⟨h', _, hs', _⟩ := hi.step hok
  rw [hs']
  rfl

/-- A run with a per-CPU cache, where one object is out and one at rest, and one
without, which gives a page back. -/
theorem slub_conservation_two_caches :
    ∃ h, Reaches SlubHeap.step Allowed (start (fun _ => 7) []) h ∧
      (h.live = [(128, 278528)] ∧ (h.slub.cache 64).activeObjects = 2 ∧
        (h.slub.cache 128).activeObjects = 1 ∧ h.slub.pages = [(128, 3000), (64, 1000)]) ∧
      ∃ g, Conserved h g := by
  obtain ⟨h, hr, hh⟩ := Reaches.of_checked_script SlubHeap.step Allowed (start (fun _ => 7) [])
    (fun h => h.live == [(128, 278528)] && (h.slub.cache 64).activeObjects == 2 &&
      (h.slub.cache 128).activeObjects == 1 && h.slub.pages == [(128, 3000), (64, 1000)])
    [.create 16384 16 1 (some 64), .create 16384 16 0 (some 128),
      .cacheAlloc 64 [some ⟨65536, 1000⟩, none], .write 65550 9, .cacheFree 64 65536,
      .cacheAlloc 128 [some ⟨131072, 2000⟩], .cacheAlloc 128 [],
      .cacheAlloc 128 [some ⟨262144, 3000⟩], .free 147456, .free 131072,
      .alloc 100 [] 524288, .free 524288] (by decide +kernel)
  have hh' : h.live = [(128, 278528)] ∧ (h.slub.cache 64).activeObjects = 2 ∧
      (h.slub.cache 128).activeObjects = 1 ∧ h.slub.pages = [(128, 3000), (64, 1000)] := by
    simpa [and_assoc] using hh
  exact ⟨h, hr, hh', (slub_conservation (fun _ => 7) descsOk_nil hr).1⟩

end SlubHeap

end KmOS
