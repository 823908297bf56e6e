/-
# `KmOS.Slub.Alloc` — `cache_alloc`

The fast path takes an object that rests on the running CPU, the slow path one
from a page, and `refill_cpu_cache` repeats the slow path with the batch array in
place of a client.  So the turn of its loop is `SlubInv.takeObj`, a client's
getting an object, followed by `SlubInv.restBatch`, a client's giving it back.
-/
import KmOS.Slub.Marks

namespace KmOS

namespace SlubAllocator

variable {z z' : SlubAllocator} {cs : List Nat} {live blocks : List (Nat × Nat)} {g : Ghost}
  {a c o : Nat}

/-! ## What the buddy allocator is going to answer -/

structure Answers (z : SlubAllocator) (blocks : List (Nat × Nat)) (c : Nat) : Prop where
  new : ∀ b ∈ z.buddy.reduceOption, NewPage z c b
  off : ∀ b ∈ z.buddy.reduceOption, ∀ k ∈ blocks,
    SlubHeap.Off b.base (pageBytes (z.cache c).order) k.1 k.2
  apart : z.buddy.reduceOption.Pairwise (fun b d => b.page ≠ d.page ∧
    SlubHeap.Off b.base (pageBytes (z.cache c).order) d.base (pageBytes (z.cache c).order))

theorem Answers.congr (h : Answers z blocks c) (hb : z'.buddy = z.buddy) (hp : z'.pages = z.pages)
    (hreg : ∀ b, (z'.page b).pageBase = (z.page b).pageBase ∧ (z'.page b).order = (z.page b).order)
    (ho : (z'.cache c).order = (z.cache c).order) : Answers z' blocks c := by
  refine ⟨fun b hm => ?_, fun b hm k hk => ?_, ?_⟩
  · rw [hb] at hm
    obtain ⟨h₁, h₂, h₃, h₄, h₅⟩ := h.new b hm
    refine ⟨h₁, hp ▸ h₂, h₃, by rw [ho]; exact h₄, ?_⟩
    rw [hp, ho]
    intro p hpm
    unfold SlubHeap.pageLen
    rw [(hreg p.2).1, (hreg p.2).2]
    exact h₅ p hpm
  · rw [hb] at hm
    rw [ho]
    exact h.off b hm k hk
  · rw [hb, ho]
    exact h.apart

theorem Answers.same (h : Answers z blocks c) (hs : SameObjects z z') : Answers z' blocks c := by
  refine h.congr hs.buddy hs.pages (fun b => ?_) (hs.sizes c).2.2
  obtain ⟨n, e⟩ := hs.page b
  rw [e]
  exact ⟨rfl, rfl⟩

theorem Answers.frame (h : Answers z blocks c) (hf : Frame z z') : Answers z' blocks c :=
  h.congr hf.buddy hf.pages (fun b => ⟨hf.base b, hf.order b⟩) (hf.sizes c).2.2

/-- Refusals do not matter. -/
theorem Answers.tail {rest : List (Option SlubMem)} (h : Answers z blocks c)
    (hb : z.buddy = none :: rest) : Answers { z with buddy := rest } blocks c := by
  have he : z.buddy.reduceOption = rest.reduceOption := by
    rw [hb]
    rfl
  obtain ⟨h₁, h₂, h₃⟩ := h
  rw [he] at h₁ h₂ h₃
  refine ⟨fun b hm => ?_, h₂, h₃⟩
  obtain ⟨k₁, k₂, k₃, k₄, k₅⟩ := h₁ b hm
  exact ⟨k₁, k₂, k₃, k₄, k₅⟩

/-! ## A new page -/

/-- The allocator after `init_page_objects`, before the page is put on a
list. -/
def withPage (z : SlubAllocator) (c : Nat) (b : SlubMem) (buddy : List (Option SlubMem)) :
    SlubAllocator :=
  { z with
    page := Function.update z.page b.page (newDesc z c b)
    pages := (c, b.page) :: z.pages
    buddy := buddy
    mem := (initPageObjects z c b).1 }

theorem allocSlubPage_eq {b : SlubMem} {rest : List (Option SlubMem)} (hb : z.buddy = some b :: rest) :
    z.allocSlubPage c = (((z.withPage c b rest).addPageToList c .partialPages b.page).modCache c
      fun s => { s with totalPages := inc32 s.totalPages }, b.page) := by
  unfold allocSlubPage
  rw [hb]
  rfl

theorem sameObjects_allocSlubPage {b : SlubMem} {rest : List (Option SlubMem)}
    (hb : z.buddy = some b :: rest) : SameObjects (z.withPage c b rest) (z.allocSlubPage c).1 := by
  rw [allocSlubPage_eq hb]
  exact (sameObjects_addPageToList _ c .partialPages b.page).trans
    (sameObjects_modCache _ c (fun s => ⟨s.head, _, rfl⟩))

theorem pageAdded {b : SlubMem} {rest : List (Option SlubMem)} (hb : z.buddy = some b :: rest) :
    PageAdded z (z.allocSlubPage c).1 c b := by
  have hs := sameObjects_allocSlubPage (c := c) hb
  refine ⟨hs.pages, hs.mem, ?_, fun a ha => ?_, hs.sizes, fun d => ?_⟩
  · have := hs.page b.page
    unfold withPage at this
    dsimp only at this
    rwa [Function.update_self] at this
  · have := hs.page a
    unfold withPage at this
    dsimp only at this
    rwa [Function.update_of_ne ha] at this
  · obtain ⟨f, n, e⟩ := hs.cache d
    rw [e]
    rfl

/-- The lists after `alloc_slub_page`. -/
def added (L : Nat × SlubList → List Nat) (c a : Nat) : Nat × SlubList → List Nat :=
  Function.update L (c, .partialPages) (a :: L (c, .partialPages))

theorem mem_added {L : Nat × SlubList → List Nat} {i : Nat × SlubList} {x : Nat} :
    x ∈ added L c a i ↔ (x = a ∧ i = (c, .partialPages)) ∨ x ∈ L i := by
  unfold added
  by_cases e : i = (c, .partialPages)
  · subst e
    rw [Function.update_self, List.mem_cons]
    simp
  · rw [Function.update_of_ne e]
    exact ⟨Or.inr, fun hx => hx.resolve_left (fun hx => e hx.2)⟩

theorem Lists.newPage {L : Nat × SlubList → List Nat} {b : SlubMem} {rest : List (Option SlubMem)}
    (h : Lists z cs L) (hc : c ∈ cs) (hb : z.buddy = some b :: rest) (hnull : b.page ≠ 0)
    (hfresh : ∀ i, i.1 ∈ cs → b.page ∉ L i) :
    Lists (z.allocSlubPage c).1 cs (added L c b.page) := by
  rw [allocSlubPage_eq hb]
  have hl : Lists (z.withPage c b rest) cs L := by
    refine h.congr (fun _ _ => rfl) (fun i hi x hx => ?_)
    unfold pageNext withPage
    dsimp only
    rw [Function.update_of_ne (fun e : x = b.page => hfresh i hi (e ▸ hx))]
  refine (hl.add (i := (c, .partialPages)) hc hnull hfresh).congr (fun d _ => ?_)
    (fun _ _ _ _ => rfl)
  rw [cache_modCache]
  split
  · next e => rw [e]
  · rfl

/-- Writing the objects of the new page leaves the lists of the CPUs alone. -/
theorem Cpu.newPage {b : SlubMem} {rest : List (Option SlubMem)} {out : List Nat}
    {fl : Nat → List Nat} {cf : Nat × Nat → List Nat} (h : Cpu z cs live out cf)
    (hpages : Pages z cs out fl) (hc : c ∈ cs) (hb : z.buddy = some b :: rest)
    (hnew : NewPage z c b) : Cpu (z.allocSlubPage c).1 cs live out cf := by
  have hs := sameObjects_allocSlubPage (c := c) hb
  have u := pageAdded (c := c) hb
  refine h.congr (fun i _ => ?_) (fun i hi x hx => ?_) (fun d e x _ he hinx => ?_)
  · obtain ⟨f, k, e⟩ := hs.cache i.1
    unfold cpuAt
    rw [e]
    rfl
  · -- an object at rest lies in an old page
    have hxo := h.cf_out hi hx
    obtain ⟨p, hp, _, hobj⟩ := hpages.out_obj hxo
    have hbd := (hpages.page p hp).fits.bounds hobj
    have hsize := (hpages.page p hp).fits.size
    have hap := hnew.apart p hp
    rw [u.mem]
    obtain ⟨_, hbytes⟩ := ObjArray.keeps_thread
      (putsFree_setObject (by decide : 0 < wordSize)) (hnew.fits (hpages.cache c hc))
      (fun o ho => hpages.not_in_new hnew ho) z.mem
    refine (Memory.link_mark_congr (fun y _ _ => hbytes y (fun hy => ?_))).1
    unfold ObjArray.Has newArr at hy
    unfold arr at hbd hsize
    unfold SlubHeap.Off at hap
    dsimp only at hy hbd hsize
    omega
  · obtain ⟨k, e'⟩ := u.other e (hnew.ne he)
    refine ⟨u.pages ▸ List.mem_cons_of_mem _ he, ?_⟩
    rw [arr_congr (p := (d, e)) (by rw [e']; exact ⟨rfl, rfl⟩) (u.sizes d)]
    exact hinx

/-- The answers still to come are new with respect to this page, too. -/
theorem Answers.newPage {b : SlubMem} {rest : List (Option SlubMem)} (ha : Answers z blocks c)
    (hb : z.buddy = some b :: rest) : Answers (z.allocSlubPage c).1 blocks c := by
  have hred : z.buddy.reduceOption = b :: rest.reduceOption := by
    rw [hb]
    rfl
  have hsub : ∀ d ∈ rest.reduceOption, d ∈ z.buddy.reduceOption := by
    intro d hd
    rw [hred]
    exact List.mem_cons_of_mem b hd
  have hnew := ha.new b (hred ▸ List.mem_cons_self)
  have u := pageAdded (c := c) hb
  have hbuddy : (z.allocSlubPage c).1.buddy = rest := (sameObjects_allocSlubPage (c := c) hb).buddy
  have hpair := ha.apart
  rw [hred] at hpair
  obtain ⟨hbd, hrest⟩ := List.pairwise_cons.mp hpair
  refine ⟨fun d hd => ?_, fun d hd k hk => ?_, ?_⟩
  · rw [hbuddy] at hd
    obtain ⟨h₁, h₂, h₃, h₄, h₅⟩ := ha.new d (hsub d hd)
    refine ⟨h₁, ?_, h₃, by rw [(u.sizes c).2.2]; exact h₄, ?_⟩
    · rw [u.pages, List.map_cons]
      refine fun hm => (List.mem_cons.mp hm).elim (fun e => (hbd d hd).1 e.symm) h₂
    · rw [u.pages, (u.sizes c).2.2]
      intro p hp
      rcases List.mem_cons.mp hp with rfl | hp
      · rw [u.new_region.1, u.new_region.2]
        exact (hbd d hd).2.symm
      · rw [(u.old_region hnew hp).1, (u.old_region hnew hp).2]
        exact h₅ p hp
  · rw [hbuddy] at hd
    rw [(u.sizes c).2.2]
    exact ha.off d (hsub d hd) k hk
  · rw [hbuddy, (u.sizes c).2.2]
    exact hrest

/-- **`alloc_slub_page`.**  The new page is first on the partial list. -/
theorem SlubInv.newPage {b : SlubMem} {rest : List (Option SlubMem)} (h : SlubInv z cs live blocks g 0)
    (hc : c ∈ cs) (ha : Answers z blocks c) (hb : z.buddy = some b :: rest) :
    ∃ g', SlubInv (z.allocSlubPage c).1 cs live blocks g' 0 ∧
      b.page ∈ g'.lists (c, .partialPages) ∧ Answers (z.allocSlubPage c).1 blocks c ∧
      Grows z live g.out (z.allocSlubPage c).1 live g'.out := by
  have hmem : b ∈ z.buddy.reduceOption := by
    rw [hb]
    exact List.mem_cons_self
  have hnew := ha.new b hmem
  have hs := sameObjects_allocSlubPage (c := c) hb
  have u := pageAdded (c := c) hb
  have hfresh : ∀ i, i.1 ∈ cs → b.page ∉ g.lists i := fun i hi hm =>
    hnew.ne ((h.onList i.1 hi b.page).mpr ⟨i.2, hm⟩) rfl
  refine ⟨⟨g.out, added g.lists c b.page, Function.update g.fl b.page (newArr z c b).objs.reverse,
      g.cf⟩,
    ⟨?_, h.nodup, h.small, ?_, h.lists.newPage hc hb hnew.nonnull hfresh, fun d hd x => ?_,
      fun i hi x hx _ => ?_, h.pages.create hc hnew u, h.cpu.newPage h.pages hc hb hnew, ?_⟩,
    mem_added.mpr (Or.inl ⟨rfl, rfl⟩), ha.newPage hb, ?_⟩
  · rw [hs.chain]
    refine h.chain.congr (fun d _ => ?_)
    obtain ⟨f, k, e⟩ := hs.cache d
    rw [e]
    rfl
  · rw [hs.sizeCaches]
    exact h.sizeCaches
  · rw [u.pages, List.mem_cons, h.onList d hd x]
    constructor
    · rintro (e | ⟨l, hl⟩)
      · have hdc : d = c := congrArg Prod.fst e
        exact ⟨.partialPages, mem_added.mpr (Or.inl ⟨congrArg Prod.snd e, by rw [hdc]⟩)⟩
      · exact ⟨l, mem_added.mpr (Or.inr hl)⟩
    · rintro ⟨l, hl⟩
      rcases mem_added.mp hl with ⟨rfl, e⟩ | hl
      · exact Or.inl (by rw [show d = c from congrArg Prod.fst e])
      · exact Or.inr ⟨l, hl⟩
  · unfold Placed
    rcases mem_added.mp hx with ⟨rfl, rfl⟩ | hx
    · -- none of the objects of the new page is outside
      obtain ⟨k, e⟩ := u.self
      rw [e]
      have hpos := (h.pages.cache c hc).some
      refine ⟨nofun, fun e => ?_⟩
      unfold newDesc at e
      dsimp only at e
      omega
    · obtain ⟨k, e⟩ := u.other x (fun e => hfresh i hi (e ▸ hx))
      rw [e]
      exact h.placed i hi x hx (h.ne_zero hi hx)
  · rw [u.pages]
    intro p hp k hk
    rcases List.mem_cons.mp hp with rfl | hp
    · rw [u.new_region.1, u.new_region.2]
      exact ha.off b hmem k hk
    · rw [(u.old_region hnew hp).1, (u.old_region hnew hp).2]
      exact h.blocks p hp k hk
  · have hflags : ∀ d, ((z.allocSlubPage c).1.cache d).flags = (z.cache d).flags := hs.flags
    exact ⟨⟨fun hm => hm.newPage h.pages hc hnew u,
      fun hq => hq.congr (fun i => hs.cpuAt_eq i) hflags hs.cpu, hflags⟩, fun _ hx => hx⟩

theorem SameObjects.cpuCache (h : SameObjects z z') (c : Nat) : z'.cpuCache c = z.cpuCache c := by
  obtain ⟨f, n, e⟩ := h.cache c
  unfold SlubAllocator.cpuCache cpuIndex
  rw [e, h.cpu]

/-- **The page an object is taken from**: there is none, or it is on the partial
list. -/
theorem SlubInv.pick (h : SlubInv z cs live blocks g 0) (hc : c ∈ cs) (ha : Answers z blocks c) :
    ∃ g', SlubInv (z.pickPage c).1 cs live blocks g' 0 ∧ Answers (z.pickPage c).1 blocks c ∧
      (z.pickPage c).1.cpuCache c = z.cpuCache c ∧
      ((z.pickPage c).2 = 0 ∨ (z.pickPage c).2 ∈ g'.lists (c, .partialPages)) ∧
      Grows z live g.out (z.pickPage c).1 live g'.out := by
  unfold pickPage
  by_cases hpart : (z.cache c).head .partialPages = 0
  · rw [if_neg (not_not.mpr hpart)]
    cases hb : z.buddy with
    | nil =>
        unfold allocSlubPage
        rw [hb]
        exact ⟨g, h, ha, rfl, Or.inl rfl, .refl _ _ _⟩
    | cons answer rest =>
        cases answer with
        | none =>
            have heq : z.allocSlubPage c = ({ z with buddy := rest }, 0) := by
              unfold allocSlubPage
              rw [hb]
            rw [heq]
            refine ⟨g, ?_, ha.tail hb, rfl, Or.inl rfl,
              ⟨⟨fun hm => ⟨hm.free, hm.rest⟩, id, fun _ => rfl⟩, fun _ hx => hx⟩⟩
            exact
              { h with
                lists := h.lists.congr (fun _ _ => rfl) (fun _ _ _ _ => rfl)
                pages := h.pages.congr rfl (fun _ => .refl _) (fun _ => .refl _) (fun _ => rfl)
                  (fun _ _ _ _ => rfl)
                cpu := h.cpu.congr (fun _ _ => rfl) (fun _ _ _ _ => rfl)
                  (fun _ _ _ _ h₁ h₂ => ⟨h₁, h₂⟩) }
        | some b =>
            obtain ⟨g', hinv, hmem, hans, hgrow⟩ := h.newPage hc ha hb
            have hsnd : (z.allocSlubPage c).2 = b.page := by
              rw [allocSlubPage_eq hb]
            have hcpu := (sameObjects_allocSlubPage (c := c) hb).cpuCache c
            exact ⟨g', hinv, hans, hcpu, Or.inr (hsnd ▸ hmem), hgrow⟩
  · rw [if_pos hpart]
    obtain ⟨t, ht, _⟩ := (h.lists.list (c, .partialPages) hc).exists_cons
      (show headOf z (c, .partialPages) ≠ 0 from hpart)
    refine ⟨g, h, ha, rfl, Or.inr ?_, .refl _ _ _⟩
    show headOf z (c, .partialPages) ∈ _
    rw [ht]
    exact List.mem_cons_self

/-! ## An object leaves its page -/

/-- The allocator after `alloc_from_page`. -/
def taken (z : SlubAllocator) (a o : Nat) : SlubAllocator :=
  { z.modPage a fun s => { s with freelist := z.mem.link o, inuse := inc32 s.inuse } with
    mem := setObject slubMagic z.mem o 0 }

/-- It, with the counter its caller updates. -/
def afterTake (z : SlubAllocator) (c a o : Nat) : SlubAllocator :=
  (z.taken a o).modCache c fun s => { s with activeObjects := inc32 s.activeObjects }

theorem page_afterTake (z : SlubAllocator) (c a o b : Nat) :
    (z.afterTake c a o).page b = if b = a then { z.page a with
      freelist := z.mem.link o, inuse := inc32 (z.page a).inuse } else z.page b := by
  have hpage : (z.afterTake c a o).page b = (z.modPage a fun s => { s with
      freelist := z.mem.link o, inuse := inc32 s.inuse }).page b := rfl
  rw [hpage, page_modPage]

theorem frame_afterTake (z : SlubAllocator) (c a o : Nat) : Frame z (z.afterTake c a o) := by
  have hpage := page_afterTake z c a o
  have hcache : ∀ d, (z.afterTake c a o).cache d = if d = c then { z.cache c with
      activeObjects := inc32 (z.cache c).activeObjects } else z.cache d :=
    fun d => cache_modCache (z.taken a o) c d _
  refine ⟨rfl, rfl, rfl, rfl, rfl, fun b => ?_, fun b => ?_, fun b => ?_, fun d => ?_, fun d => ?_,
    fun d => ?_, fun d => ?_⟩
  · unfold pageNext
    rw [hpage]
    split
    · next e => rw [e]
    · rfl
  · rw [hpage]
    split
    · next e => rw [e]
    · rfl
  · rw [hpage]
    split
    · next e => rw [e]
    · rfl
  · rw [hcache]
    split
    · next e => rw [e]
    · rfl
  · rw [hcache]
    split
    · next e => rw [e]
    · rfl
  · rw [hcache]
    split
    · next e =>
        rw [e]
        exact ⟨rfl, rfl, rfl⟩
    · exact .refl _
  · rw [hcache]
    split
    · next e => rw [e]
    · rfl

/-- **A client gets an object** from a page of the partial list. -/
theorem SlubInv.takeObj (h : SlubInv z cs live blocks g 0) (hc : c ∈ cs)
    (ha : a ∈ g.lists (c, .partialPages)) :
    ∃ o t, z.allocFromPage a = (z.taken a o, o) ∧ o ≠ 0 ∧
      SlubInv (z.afterTake c a o) cs ((c, o) :: live) blocks
        ⟨o :: g.out, g.lists, Function.update g.fl a t, g.cf⟩ a ∧
      Grows z live g.out (z.afterTake c a o) ((c, o) :: live) (o :: g.out) := by
  have hp : (c, a) ∈ z.pages := (h.onList c hc a).mpr ⟨_, ha⟩
  have hok := h.pages.page _ hp
  dsimp only at hok
  -- the page is not full, so it has a free object
  have hnot : (z.page a).inuse ≠ (z.page a).objects := fun e =>
    nomatch (h.placed (c, .partialPages) hc a ha (h.ne_zero (i := (c, .partialPages)) hc ha)).mpr e
  obtain ⟨o, t, hfl⟩ : ∃ o t, g.fl a = o :: t := by
    refine List.exists_cons_of_ne_nil (fun hnil => hnot ?_)
    have htot := hok.keeps.total
    rw [hnil, List.length_nil, Nat.zero_add] at htot
    rw [hok.inuse, hok.objects]
    exact htot
  have hok' : PageOk z g.out (c, a) (o :: t) := hfl ▸ hok
  obtain ⟨hhead, ho, _⟩ := hok'.keeps.list
  dsimp only at hhead
  have hobj := hok'.keeps.free_obj List.mem_cons_self
  have hin := hok'.fits.has hobj
  have hnew := hok'.keeps.not_out hok'.fits List.mem_cons_self
  have hpage := page_afterTake z c a o
  have hself := (hpage a).trans (if_pos rfl)
  have hcache : ∀ d, (z.afterTake c a o).cache d = if d = c then { z.cache c with
      activeObjects := inc32 (z.cache c).activeObjects } else z.cache d :=
    fun d => cache_modCache (z.taken a o) c d _
  have hf := frame_afterTake z c a o
  have hu : OnePage z (z.afterTake c a o) (c, a) := by
    refine ⟨rfl, fun b hb => (hpage b).trans (if_neg hb), fun d hd => ?_, hf.sizes, ?_, ?_, ?_,
      fun x hx => ?_⟩
    · rw [hcache, if_neg hd]
    · rw [hself]
    · rw [hself]
    · rw [hself]
    · refine (putsFree_setObject (by decide : slubMagic < wordSize)).other z.mem o 0 x ?_
      have hb := hok'.fits.bounds hobj
      have hsize := hok'.fits.size
      unfold ObjArray.Has at hx
      omega
  have hpages : Pages (z.afterTake c a o) cs (o :: g.out) (Function.update g.fl a t) := by
    refine h.pages.take hp hfl hu hself rfl ?_
    rw [hcache, if_pos rfl]
  have hcpu : Cpu (z.afterTake c a o) cs ((c, o) :: live) (o :: g.out) g.cf := by
    refine Cpu.hand ?_ hp (by rw [hu.arr_eq]; exact hin)
    refine h.cpu.congr (fun i _ => ?_) (fun i hi x hx => ?_) (fun d e x _ he hx => ⟨he, ?_⟩)
    · unfold cpuAt
      rw [hcache]
      split
      · next e => rw [e]
      · rfl
    · have hxo := h.cpu.cf_out hi hx
      obtain ⟨q, hq, _, hobjx⟩ := h.pages.out_obj hxo
      exact h.pages.link_setObject hp hq hobj hobjx (fun e => hnew (e ▸ hxo)) (by decide)
    · rw [hu.arr_eq]
      exact hx
  have hmarked : Marked z live g.out → Marked (z.afterTake c a o) ((c, o) :: live) (o :: g.out) := by
    intro hm
    refine hm.put h.pages hp hobj (by decide : slubMagic < wordSize) rfl rfl hu.arr_eq
      (fun hno => absurd List.mem_cons_self hno) (fun _ _ => rfl) (fun x hx => ⟨?_, ?_⟩)
    · rw [List.mem_cons, or_iff_right hx]
    · rw [List.map_cons, List.mem_cons, or_iff_right hx]
  have hquiet : Quiet z → Quiet (z.afterTake c a o) := by
    refine fun hq => hq.congr (fun i => ?_) hf.flags rfl
    unfold cpuAt
    rw [hcache]
    split
    · next e => rw [e]
    · rfl
  refine ⟨o, t, ?_, ho, h.frame hf hpages hcpu (fun b hb0 hba => ⟨hb0, ?_, ?_⟩),
    ⟨⟨hmarked, hquiet, hf.flags⟩, fun _ hx => List.mem_cons_of_mem o hx⟩⟩
  · unfold allocFromPage
    dsimp only
    rw [hhead, if_neg ho]
    rfl
  · rw [hpage, if_neg hba]
  · rw [hpage, if_neg hba]

/-! ## Objects go to rest and wake -/

theorem frame_modCpu (z : SlubAllocator) (c k : Nat) (f : SlubCpuCache → SlubCpuCache) :
    Frame z (z.modCpu c k f) := by
  have hcache : ∀ d, ∃ h, (z.modCpu c k f).cache d = { z.cache d with cpuCaches := h } := by
    intro d
    unfold modCpu
    rw [cache_modCache]
    split
    · next e => exact ⟨_, by rw [e]⟩
    · exact ⟨(z.cache d).cpuCaches, rfl⟩
  refine ⟨rfl, rfl, rfl, rfl, rfl, fun _ => rfl, fun _ => rfl, fun _ => rfl, fun d => ?_, fun d => ?_,
    fun d => ?_, fun d => ?_⟩
  all_goals
    obtain ⟨h, e⟩ := hcache d
    rw [e]
  exact ⟨rfl, rfl, rfl⟩

theorem active_modCpu (z : SlubAllocator) (c k : Nat) (f : SlubCpuCache → SlubCpuCache) (d : Nat) :
    ((z.modCpu c k f).cache d).activeObjects = (z.cache d).activeObjects := by
  unfold modCpu
  rw [cache_modCache]
  split
  · next e => rw [e]
  · rfl

/-- The pages when a per-CPU cache changes. -/
theorem Pages.modCpu {out : List Nat} {fl : Nat → List Nat} (h : Pages z cs out fl) (c k : Nat)
    (f : SlubCpuCache → SlubCpuCache) : Pages (z.modCpu c k f) cs out fl :=
  h.congr rfl (fun _ => .refl _) (frame_modCpu z c k f).sizes (active_modCpu z c k f)
    (fun _ _ _ _ => rfl)

/-- **An object goes to rest** in the batch array. -/
theorem SlubInv.restBatch (h : SlubInv z cs live blocks g a) (hc : c ∈ cs) (ho : (c, o) ∈ live)
    (hroom : (z.cpuCache c).batchCount < slubBatchSize) :
    SlubInv (z.pushBatch c o) cs (live.erase (c, o)) blocks g a := by
  obtain ⟨b, hb, hin⟩ := h.cpu.owner (c, o) (List.mem_append_left _ ho)
  have hcpu := ((h.cpu.drop ho).pushBatch h.nodup hc hroom hb hin).perm
    (List.perm_cons_erase (h.cpu.live_out ho)).symm
  exact h.frame (frame_modCpu z c z.cpuIndex _) (h.pages.modCpu c z.cpuIndex _) hcpu
    (fun b _ hb => ⟨hb, rfl, rfl⟩)

/-- **An object wakes**: the last one of the batch array. -/
theorem SlubInv.wakeBatch (h : SlubInv z cs live blocks g a) (hc : c ∈ cs)
    (hsome : 0 < (z.cpuCache c).batchCount) :
    (z.popBatch c).2 ≠ 0 ∧
      SlubInv (z.popBatch c).1 cs ((c, (z.popBatch c).2) :: live) blocks g a := by
  obtain ⟨ho, hcpu, b, hb, hin⟩ := h.cpu.popBatch h.nodup hc hsome
  have harr : arr (z.popBatch c).1 (c, b) = arr z (c, b) := arr_modCpu z c z.cpuIndex (takeLast z c) _
  have hcpu' := (hcpu.hand hb (by rw [harr]; exact hin)).perm (List.perm_cons_erase ho).symm
  refine ⟨(h.pages.page _ hb).fits.ne_zero hin, ?_⟩
  exact h.frame (frame_modCpu z c z.cpuIndex (takeLast z c)) (h.pages.modCpu c z.cpuIndex (takeLast z c))
    hcpu' (fun b _ hb => ⟨hb, rfl, rfl⟩)

/-- The first one of the list of the CPU. -/
theorem SlubInv.wakeFree (h : SlubInv z cs live blocks g a) (hc : c ∈ cs)
    (hsome : (z.cpuCache c).freelist ≠ 0) :
    ∃ g', SlubInv (z.popFree c) cs ((c, (z.cpuCache c).freelist) :: live) blocks g' a ∧
      g'.out = g.out := by
  obtain ⟨ho, ⟨cf', hcpu⟩, b, hb, hin⟩ := h.cpu.popFree h.nodup hc hsome
  have harr : arr (z.popFree c) (c, b) = arr z (c, b) := arr_modCpu z c z.cpuIndex _ _
  have hcpu' := (hcpu.hand hb (by rw [harr]; exact hin)).perm (List.perm_cons_erase ho).symm
  exact ⟨_, h.frame (frame_modCpu z c z.cpuIndex _) (h.pages.modCpu c z.cpuIndex _) hcpu'
    (fun b _ hb => ⟨hb, rfl, rfl⟩), rfl⟩

/-! ## The slow path and the refill -/

/-- **The slow path.** -/
theorem SlubInv.allocSlow (h : SlubInv z cs live blocks g 0) (hc : c ∈ cs) (ha : Answers z blocks c) :
    ∃ z' obj g', z.allocSlow c = some (z', obj) ∧
      SlubInv z' cs (if obj = 0 then live else (c, obj) :: live) blocks g' 0 ∧
      Grows z live g.out z' (if obj = 0 then live else (c, obj) :: live) g'.out := by
  obtain ⟨g₁, h₁, _, _, hpage, hg₁⟩ := h.pick hc ha
  unfold SlubAllocator.allocSlow
  generalize z.pickPage c = r at h₁ hpage hg₁ ⊢
  obtain ⟨z₁, page⟩ := r
  dsimp only at h₁ hpage hg₁ ⊢
  by_cases hz : page = 0
  · rw [if_pos hz]
    exact ⟨z₁, 0, g₁, rfl, h₁, hg₁⟩
  · rw [if_neg hz]
    have hmem := hpage.resolve_left hz
    obtain ⟨o, t, hres, ho, h₂, hg₂⟩ := h₁.takeObj hc hmem
    obtain ⟨z₃, g₃, hz₃, hs₃, hout₃, h₃⟩ := h₂.moveIfFull hc hmem
    rw [hres]
    dsimp only
    rw [if_neg ho]
    have hz₃' : ((z₁.taken page o).modCache c fun s =>
        { s with activeObjects := inc32 s.activeObjects }).moveIfFull c page = some z₃ := hz₃
    rw [hz₃']
    refine ⟨z₃, o, g₃, rfl, ?_⟩
    rw [if_neg ho, hout₃]
    exact ⟨h₃, (hg₁.trans hg₂).trans (hs₃.grows _ _)⟩

/-- The counter and the batch array are different fields. -/
theorem pushBatch_comm (z : SlubAllocator) (c a o : Nat) :
    ((z.taken a o).pushBatch c o).modCache c
        (fun s => { s with activeObjects := inc32 s.activeObjects }) = (z.afterTake c a o).pushBatch c o := by
  unfold afterTake pushBatch modCpu modCache
  dsimp only
  rw [Function.update_idem, Function.update_idem, Function.update_self, Function.update_self]
  rfl

/-- **The loop of `refill_cpu_cache`.** -/
theorem SlubInv.refillLoop (hc : c ∈ cs) {n : Nat} :
    ∀ {z : SlubAllocator} {g : Ghost}, SlubInv z cs live blocks g 0 → Answers z blocks c →
      percpu (z.cache c) → (z.cpuCache c).batchCount + n ≤ slubBatchSize →
      ∃ z' g', refillLoop c n z = some z' ∧ SlubInv z' cs live blocks g' 0 ∧ Answers z' blocks c ∧
        Grows z live g.out z' live g'.out := by
  induction n with
  | zero => intro z g h ha _ _; exact ⟨z, g, rfl, h, ha, .refl _ _ _⟩
  | succ n ih =>
      intro z g h ha hper hroom
      obtain ⟨g₁, h₁, ha₁, hcpu₁, hpage, hg₁⟩ := h.pick hc ha
      unfold SlubAllocator.refillLoop
      generalize z.pickPage c = r at h₁ ha₁ hcpu₁ hpage hg₁ ⊢
      obtain ⟨z₁, page⟩ := r
      dsimp only at h₁ ha₁ hcpu₁ hpage hg₁ ⊢
      by_cases hz : page = 0
      · rw [if_pos hz]
        exact ⟨z₁, g₁, rfl, h₁, ha₁, hg₁⟩
      · rw [if_neg hz]
        have hmem := hpage.resolve_left hz
        obtain ⟨o, t, hres, ho, h₂, hg₂⟩ := h₁.takeObj hc hmem
        have hcount : ((z₁.afterTake c page o).cpuCache c) = z.cpuCache c := by
          rw [← hcpu₁]
          unfold cpuCache
          rw [show (z₁.afterTake c page o).cache c = _ from cache_modCache (z₁.taken page o) c c _,
            if_pos rfl]
          rfl
        have h₃ := h₂.restBatch hc List.mem_cons_self (by rw [hcount]; omega)
        have hg₃ := grows_restBatch (o := o) (z₁.afterTake c page o) ((c, o) :: live) (o :: g₁.out)
          ((percpu_congr ((hg₁.trans hg₂).flags c)).mpr hper)
          ((putsFree_setObject (by decide)).mark z₁.mem o 0)
        rw [List.erase_cons_head] at h₃ hg₃
        obtain ⟨z₄, g₄, hz₄, hs₄, hout₄, h₄⟩ := h₃.moveIfFull hc hmem
        have hg₄ : Grows z live g.out z₄ live g₄.out := by
          rw [hout₄]
          exact ((hg₁.trans hg₂).trans hg₃).trans (hs₄.grows _ _)
        have ha₄ : Answers z₄ blocks c :=
          ((ha₁.frame (frame_afterTake z₁ c page o)).frame (frame_modCpu _ c _ _)).same hs₄
        have hroom₄ : (z₄.cpuCache c).batchCount + n ≤ slubBatchSize := by
          rw [hs₄.cpuCache c]
          have hpush : ((z₁.afterTake c page o).pushBatch c o).cpuCache c = { z.cpuCache c with
              batchCount := (z.cpuCache c).batchCount + 1
              batchObjects := Function.update (z.cpuCache c).batchObjects (z.cpuCache c).batchCount o } := by
            rw [← hcount]
            exact (cpuAt_modCpu (z₁.afterTake c page o) c (z₁.afterTake c page o).cpuIndex _ _).trans
              (if_pos rfl)
          rw [hpush]
          dsimp only
          omega
        obtain ⟨z₅, g₅, hz₅, h₅, ha₅, hg₅⟩ := ih h₄ ha₄ ((percpu_congr (hg₄.flags c)).mpr hper) hroom₄
        refine ⟨z₅, g₅, ?_, h₅, ha₅, hg₄.trans hg₅⟩
        rw [hres]
        dsimp only
        rw [if_neg ho, pushBatch_comm, hz₄]
        exact hz₅

/-! ## `cache_alloc` -/

/-- **The fast path.** -/
theorem SlubInv.cpuCacheAlloc (h : SlubInv z cs live blocks g 0) (hc : c ∈ cs)
    (ha : Answers z blocks c) (hper : percpu (z.cache c)) :
    ∃ z' obj g', z.cpuCacheAlloc c = some (z', obj) ∧
      SlubInv z' cs (if obj = 0 then live else (c, obj) :: live) blocks g' 0 ∧
      (obj = 0 → Answers z' blocks c) ∧
      Grows z live g.out z' (if obj = 0 then live else (c, obj) :: live) g'.out := by
  unfold SlubAllocator.cpuCacheAlloc
  by_cases hbatch : 0 < (z.cpuCache c).batchCount
  · rw [if_pos hbatch]
    obtain ⟨ho, h'⟩ := h.wakeBatch hc hbatch
    refine ⟨(z.popBatch c).1, (z.popBatch c).2, g, rfl, ?_, fun e => absurd e ho, ?_⟩
    · rw [if_neg ho]
      exact h'
    · rw [if_neg ho]
      exact grows_wake z live g.out hper (takeLast z c) _
  rw [if_neg hbatch]
  by_cases hfree : (z.cpuCache c).freelist = 0
  · rw [if_neg (not_not.mpr hfree)]
    -- the array is empty: there is room for the refill
    have hi : (c, z.cpuIndex) ∈ places cs := mem_places.mpr ⟨hc, cpuIndex_lt z⟩
    have hlimit : (z.cpuCache c).batchlimit = slubBatchSize / 2 := h.cpu.limit _ hi
    have hroom : (z.cpuCache c).batchCount + (z.cpuCache c).batchlimit ≤ slubBatchSize := by
      have hhalf : slubBatchSize / 2 ≤ slubBatchSize := Nat.div_le_self _ _
      omega
    obtain ⟨z₁, g₁, hz₁, h₁, ha₁, hg₁⟩ := SlubInv.refillLoop hc h ha hper hroom
    unfold refillCpuCache
    rw [hz₁]
    show ∃ z' obj g', (if 0 < (z₁.cpuCache c).batchCount then some (z₁.popBatch c) else some (z₁, 0)) =
      some (z', obj) ∧ _
    by_cases hbatch₁ : 0 < (z₁.cpuCache c).batchCount
    · rw [if_pos hbatch₁]
      obtain ⟨ho, h'⟩ := h₁.wakeBatch hc hbatch₁
      have hper₁ := (percpu_congr (hg₁.flags c)).mpr hper
      refine ⟨(z₁.popBatch c).1, (z₁.popBatch c).2, g₁, rfl, ?_, fun e => absurd e ho, ?_⟩
      · rw [if_neg ho]
        exact h'
      · rw [if_neg ho]
        exact hg₁.trans (grows_wake z₁ live g₁.out hper₁ (takeLast z₁ c) _)
    · rw [if_neg hbatch₁]
      exact ⟨z₁, 0, g₁, rfl, h₁, fun _ => ha₁, hg₁⟩
  · rw [if_pos hfree]
    obtain ⟨g', h', hout⟩ := h.wakeFree hc hfree
    refine ⟨z.popFree c, (z.cpuCache c).freelist, g', rfl, ?_, fun e => absurd e hfree, ?_⟩
    · rw [if_neg hfree]
      exact h'
    · rw [if_neg hfree, hout]
      exact grows_wake z live g.out hper _ _

/-- **`cache_alloc`.** -/
theorem SlubInv.cacheAlloc (h : SlubInv z cs live blocks g 0) (hc : c ∈ cs) (ha : Answers z blocks c) :
    ∃ z' obj g', z.cacheAlloc c = some (z', obj) ∧
      SlubInv z' cs (if obj = 0 then live else (c, obj) :: live) blocks g' 0 ∧
      Grows z live g.out z' (if obj = 0 then live else (c, obj) :: live) g'.out := by
  unfold SlubAllocator.cacheAlloc
  rw [if_neg (h.chain.ne_null c hc)]
  by_cases hper : percpu (z.cache c)
  · rw [if_pos hper]
    obtain ⟨z₁, obj, g₁, hz₁, h₁, ha₁, hg₁⟩ := h.cpuCacheAlloc hc ha hper
    rw [hz₁]
    show ∃ z' obj' g', (if obj ≠ 0 then some (z₁, obj) else z₁.allocSlow c) = some (z', obj') ∧ _
    by_cases ho : obj = 0
    · rw [if_neg (not_not.mpr ho)]
      rw [if_pos ho] at h₁ hg₁
      obtain ⟨z₂, o, g₂, hz₂, h₂, hg₂⟩ := h₁.allocSlow hc (ha₁ ho)
      exact ⟨z₂, o, g₂, hz₂, h₂, hg₁.trans hg₂⟩
    · rw [if_pos ho]
      exact ⟨z₁, obj, g₁, rfl, h₁, hg₁⟩
  · rw [if_neg hper]
    exact h.allocSlow hc ha

end SlubAllocator

end KmOS
