/-
# `KmOS.Slub.Pages` — the pages and the objects outside them

An object is on the list of its page or outside: in a client's hands or resting
in the per-CPU layer.  `Pages z cs out fl` says of all pages that their free
objects `fl` and those of `out` in them are their slots, and that the counters
count what is outside.  It mentions neither the lists pages are on nor where in
the per-CPU layer an object rests.
-/
import Mathlib.Algebra.BigOperators.Group.List.Basic
import KmOS.Lib.ObjArray
import KmOS.Lib.Regions
import KmOS.Slub.Model

namespace KmOS

namespace SlubAllocator

variable {z z' : SlubAllocator} {cs : List Nat} {p q : Nat × Nat} {c a o : Nat} {out out' : List Nat}
  {fl : Nat → List Nat}

/-! ## Definitions -/

/-- The objects of a page. -/
def arr (z : SlubAllocator) (p : Nat × Nat) : ObjArray where
  base := (z.page p.2).pageBase
  len := SlubHeap.pageLen z p
  size := (z.cache p.1).size
  count := (z.cache p.1).objectsPerPage

/-- The pages of a cache. -/
def pagesOf (z : SlubAllocator) (c : Nat) : List Nat :=
  (z.pages.filter (fun p => decide (p.1 = c))).map Prod.snd

/-- An object holds `struct slub_object`, and a page holds its objects. -/
structure CacheOk (s : SlubCache) : Prop where
  size : sizeofSlubObject ≤ s.size
  some : 0 < s.objectsPerPage
  fit : s.objectsPerPage * s.size ≤ pageBytes s.order

structure PageOk (z : SlubAllocator) (out : List Nat) (p : Nat × Nat) (fl : List Nat) : Prop where
  nonnull : p.2 ≠ 0
  order : (z.page p.2).order = (z.cache p.1).order
  objects : (z.page p.2).objects = (z.cache p.1).objectsPerPage
  fits : (arr z p).Fits
  keeps : (arr z p).Keeps z.mem (z.page p.2).freelist fl out
  inuse : (z.page p.2).inuse = ((arr z p).outOf out).length

/-- **All pages.** -/
structure Pages (z : SlubAllocator) (cs : List Nat) (out : List Nat) (fl : Nat → List Nat) : Prop where
  cache : ∀ c ∈ cs, CacheOk (z.cache c)
  owner : ∀ p ∈ z.pages, p.1 ∈ cs
  nodup : (z.pages.map Prod.snd).Nodup
  regions : Disjoints (fun p => (z.page p.2).pageBase) (SlubHeap.pageLen z) z.pages
  page : ∀ p ∈ z.pages, PageOk z out p (fl p.2)
  active : ∀ c ∈ cs, (z.cache c).activeObjects = ((pagesOf z c).map (fun a => (z.page a).inuse)).sum
  out_nodup : out.Nodup
  out_page : ∀ o ∈ out, ∃ p ∈ z.pages, (arr z p).Has o

/-! ## What follows at once -/

theorem mem_pagesOf : a ∈ pagesOf z c ↔ (c, a) ∈ z.pages := by
  unfold pagesOf
  rw [List.mem_map]
  constructor
  · rintro ⟨⟨d, b⟩, hp, rfl⟩
    obtain ⟨hp, hd⟩ := List.mem_filter.mp hp
    have hd' : d = c := by simpa using hd
    exact hd' ▸ hp
  · intro h
    exact ⟨(c, a), List.mem_filter.mpr ⟨h, by simp⟩, rfl⟩

theorem Pages.pagesOf_nodup (h : Pages z cs out fl) : (pagesOf z c).Nodup :=
  h.nodup.sublist (List.filter_sublist.map Prod.snd)

/-- A page belongs to one cache. -/
theorem Pages.page_ext (h : Pages z cs out fl) (hp : p ∈ z.pages) (hq : q ∈ z.pages)
    (he : p.2 = q.2) : p = q :=
  List.inj_on_of_nodup_map h.nodup hp hq he

/-- The memory of two pages does not overlap. -/
theorem Pages.page_unique (h : Pages z cs out fl) (hp : p ∈ z.pages) (hq : q ∈ z.pages)
    (hop : (arr z p).Has o) (hoq : (arr z q).Has o) : p = q := by
  by_contra hne
  have := h.regions.of_ne hp hq hne
  unfold ObjArray.Has arr at hop hoq
  dsimp only at hop hoq this
  omega

/-- Objects of two pages are one, or lie apart. -/
theorem Pages.apart (h : Pages z cs out fl) {x y : Nat} (hp : p ∈ z.pages) (hq : q ∈ z.pages)
    (hx : x ∈ (arr z p).objs) (hy : y ∈ (arr z q).objs) :
    x = y ∨ x + (arr z p).size ≤ y ∨ y + (arr z q).size ≤ x := by
  by_cases e : p = q
  · subst e
    exact slots_apart hx hy
  · have hbx := (h.page p hp).fits.bounds hx
    have hby := (h.page q hq).fits.bounds hy
    have := h.regions.of_ne hp hq e
    unfold arr at hbx hby ⊢
    dsimp only at hbx hby this ⊢
    omega

/-- An object outside is a slot of its page. -/
theorem Pages.out_obj (h : Pages z cs out fl) (ho : o ∈ out) :
    ∃ p ∈ z.pages, (arr z p).Has o ∧ o ∈ (arr z p).objs := by
  obtain ⟨p, hp, hin⟩ := h.out_page o ho
  exact ⟨p, hp, hin, (h.page p hp).keeps.out_obj ho hin⟩

theorem CacheOk.num_le {s : SlubCache} (h : CacheOk s) : s.objectsPerPage ≤ pageBytes s.order := by
  have hsize := h.size
  unfold sizeofSlubObject at hsize
  exact Nat.le_trans (Nat.le_mul_of_pos_right _ (by omega)) h.fit

theorem PageOk.inuse_le {fl : List Nat} (h : PageOk z out p fl) :
    (z.page p.2).inuse ≤ (z.page p.2).objects := by
  have htot := h.keeps.total
  have hinuse := h.inuse
  have hobj : (arr z p).count = (z.page p.2).objects := h.objects.symm
  omega

theorem Pages.regionsOf (h : Pages z cs out fl) (c : Nat) :
    Disjoints (fun b => (z.page b).pageBase) (fun b => pageBytes (z.page b).order) (pagesOf z c) := by
  refine List.Pairwise.imp_of_mem ?_ (h.pagesOf_nodup (c := c))
  intro b d hb hd hne
  exact h.regions.of_ne (mem_pagesOf.mp hb) (mem_pagesOf.mp hd) (fun e => hne (congrArg Prod.snd e))

/-- The objects of a cache outside its pages are fewer than the addresses. -/
theorem Pages.active_lt (h : Pages z cs out fl) (hc : c ∈ cs) :
    ((pagesOf z c).map (fun a => (z.page a).inuse)).sum +
      ((pagesOf z c).map (fun a => (fl a).length)).sum < wordSize := by
  rw [← List.sum_map_add]
  refine sum_weights_lt (h.regionsOf c) (by decide) (fun b hb => ?_)
  have hok := h.page _ (mem_pagesOf.mp hb)
  refine ⟨?_, hok.fits.space⟩
  have htot := hok.keeps.total
  have hinuse := hok.inuse
  have hnum := (h.cache c hc).num_le
  have hord := hok.order
  dsimp only at hord hinuse htot
  rw [hord]
  have hcount : (arr z (c, b)).count = (z.cache c).objectsPerPage := rfl
  omega

/-! ## What does not matter -/

/-- Two descriptors that differ in the link only. -/
def SameBody (s s' : SlubPage) : Prop := ∃ n, s' = { s with next := n }

/-- The sizes of two caches agree. -/
def SameSizes (s s' : SlubCache) : Prop :=
  s'.size = s.size ∧ s'.objectsPerPage = s.objectsPerPage ∧ s'.order = s.order

theorem SameBody.refl (s : SlubPage) : SameBody s s := ⟨s.next, rfl⟩

theorem SameSizes.refl (s : SlubCache) : SameSizes s s := ⟨rfl, rfl, rfl⟩

theorem CacheOk.congr {s s' : SlubCache} (h : CacheOk s) (hs : SameSizes s s') : CacheOk s' := by
  obtain ⟨h₁, h₂, h₃⟩ := hs
  refine ⟨?_, ?_, ?_⟩
  · rw [h₁]
    exact h.size
  · rw [h₂]
    exact h.some
  · rw [h₁, h₂, h₃]
    exact h.fit

theorem arr_congr (hb : (z'.page p.2).pageBase = (z.page p.2).pageBase ∧
      (z'.page p.2).order = (z.page p.2).order) (hs : SameSizes (z.cache p.1) (z'.cache p.1)) :
    arr z' p = arr z p := by
  unfold arr SlubHeap.pageLen
  rw [hb.1, hb.2, hs.1, hs.2.1]

/-- A page reads its descriptor, the sizes of its cache, its free objects' links
and which of its slots are outside. -/
theorem PageOk.congr {fl : List Nat} (h : PageOk z out p fl)
    (hb : SameBody (z.page p.2) (z'.page p.2)) (hs : SameSizes (z.cache p.1) (z'.cache p.1))
    (hm : ∀ o ∈ fl, z'.mem.link o = z.mem.link o)
    (hout : ((arr z p).outOf out').Perm ((arr z p).outOf out)) : PageOk z' out' p fl := by
  obtain ⟨n, e⟩ := hb
  have harr : arr z' p = arr z p := arr_congr (by rw [e]; exact ⟨rfl, rfl⟩) hs
  refine ⟨h.nonnull, ?_, ?_, ?_, ?_, ?_⟩
  · rw [e, hs.2.2]
    exact h.order
  · rw [e, hs.2.1]
    exact h.objects
  · rw [harr]
    exact h.fits
  · rw [harr, e]
    exact h.keeps.congr hm hout
  · rw [harr, e, hout.length_eq]
    exact h.inuse

/-- **Links of pages, heads of lists and the per-CPU layer** do not matter to
the pages. -/
theorem Pages.congr (h : Pages z cs out fl) (hp : z'.pages = z.pages)
    (hb : ∀ a, SameBody (z.page a) (z'.page a)) (hs : ∀ d, SameSizes (z.cache d) (z'.cache d))
    (hact : ∀ d, (z'.cache d).activeObjects = (z.cache d).activeObjects)
    (hm : ∀ p ∈ z.pages, ∀ o ∈ fl p.2, z'.mem.link o = z.mem.link o) : Pages z' cs out fl := by
  have harr : ∀ p, arr z' p = arr z p := by
    intro p
    obtain ⟨n, e⟩ := hb p.2
    exact arr_congr (by rw [e]; exact ⟨rfl, rfl⟩) (hs p.1)
  refine ⟨fun c hc => (h.cache c hc).congr (hs c), ?_, ?_, ?_, ?_, fun c hc => ?_, h.out_nodup, ?_⟩
  · rw [hp]
    exact h.owner
  · rw [hp]
    exact h.nodup
  · rw [hp]
    refine h.regions.imp (fun {p q} hpq => ?_)
    obtain ⟨n, e⟩ := hb p.2
    obtain ⟨k, e'⟩ := hb q.2
    unfold SlubHeap.pageLen at hpq ⊢
    dsimp only at hpq ⊢
    rw [e, e']
    exact hpq
  · rw [hp]
    intro p hp
    exact (h.page p hp).congr (hb p.2) (hs p.1) (hm p hp) (List.Perm.refl _)
  · have hof : pagesOf z' c = pagesOf z c := by
      unfold pagesOf
      rw [hp]
    rw [hact, hof, h.active c hc]
    congr 1
    refine List.map_congr_left (fun b _ => ?_)
    obtain ⟨n, e⟩ := hb b
    rw [e]
  · intro o ho
    obtain ⟨p, hp', hin⟩ := h.out_page o ho
    exact ⟨p, hp ▸ hp', by rw [harr]; exact hin⟩

/-- Nor does the order in which the objects outside are listed. -/
theorem Pages.perm (h : Pages z cs out fl) (hp : out.Perm out') : Pages z cs out' fl where
  cache := h.cache
  owner := h.owner
  nodup := h.nodup
  regions := h.regions
  page := fun p hm => (h.page p hm).congr (.refl _) (.refl _) (fun _ _ => rfl)
    (ObjArray.outOf_perm hp.symm)
  active := h.active
  out_nodup := hp.nodup_iff.mp h.out_nodup
  out_page := fun o ho => h.out_page o (hp.mem_iff.mpr ho)

/-! ## One page changes -/

/-- The allocator after one page and its cache have been rewritten, and perhaps
bytes inside that page. -/
structure OnePage (z z' : SlubAllocator) (p : Nat × Nat) : Prop where
  pages : z'.pages = z.pages
  other : ∀ b, b ≠ p.2 → z'.page b = z.page b
  caches : ∀ d, d ≠ p.1 → (z'.cache d).activeObjects = (z.cache d).activeObjects
  sizes : ∀ d, SameSizes (z.cache d) (z'.cache d)
  base : (z'.page p.2).pageBase = (z.page p.2).pageBase
  order : (z'.page p.2).order = (z.page p.2).order
  objects : (z'.page p.2).objects = (z.page p.2).objects
  bytes : ∀ x, ¬ (arr z p).Has x → z'.mem x = z.mem x

theorem OnePage.arr_eq (u : OnePage z z' p) (q : Nat × Nat) : arr z' q = arr z q := by
  refine arr_congr ?_ (u.sizes q.1)
  by_cases e : q.2 = p.2
  · rw [e]
    exact ⟨u.base, u.order⟩
  · rw [u.other q.2 e]
    exact ⟨rfl, rfl⟩

/-- **The rule for taking and giving objects.** -/
theorem Pages.onePage {t : List Nat} (h : Pages z cs out fl) (hp : p ∈ z.pages) (u : OnePage z z' p)
    (hkeeps : (arr z p).Keeps z'.mem (z'.page p.2).freelist t out')
    (hinuse : (z'.page p.2).inuse = ((arr z p).outOf out').length)
    (hother : ∀ q ∈ z.pages, q ≠ p → ((arr z q).outOf out').Perm ((arr z q).outOf out))
    (hnd : out'.Nodup) (hsub : ∀ o ∈ out', o ∈ out ∨ (arr z p).Has o)
    (hact : (z'.cache p.1).activeObjects + (z.page p.2).inuse =
      (z.cache p.1).activeObjects + (z'.page p.2).inuse) :
    Pages z' cs out' (Function.update fl p.2 t) := by
  have hslot := h.page p hp
  have hne : ∀ q ∈ z.pages, q ≠ p → q.2 ≠ p.2 := fun q hq hqp e => hqp (h.page_ext hq hp e)
  refine ⟨fun d hd => (h.cache d hd).congr (u.sizes d), ?_, ?_, ?_, ?_, fun d hd => ?_, hnd, ?_⟩
  · rw [u.pages]
    exact h.owner
  · rw [u.pages]
    exact h.nodup
  · rw [u.pages]
    have hreg : ∀ q, (z'.page q.2).pageBase = (z.page q.2).pageBase ∧
        SlubHeap.pageLen z' q = SlubHeap.pageLen z q :=
      fun q => ⟨congrArg ObjArray.base (u.arr_eq q), congrArg ObjArray.len (u.arr_eq q)⟩
    refine h.regions.imp (fun {q r} hqr => ?_)
    dsimp only at hqr ⊢
    rw [(hreg q).1, (hreg q).2, (hreg r).1, (hreg r).2]
    exact hqr
  · rw [u.pages]
    intro q hq
    by_cases e : q = p
    · subst e
      rw [Function.update_self]
      refine ⟨hslot.nonnull, ?_, ?_, ?_, ?_, ?_⟩
      · rw [u.order, (u.sizes q.1).2.2]
        exact hslot.order
      · rw [u.objects, (u.sizes q.1).2.1]
        exact hslot.objects
      · rw [u.arr_eq]
        exact hslot.fits
      · rw [u.arr_eq]
        exact hkeeps
      · rw [u.arr_eq]
        exact hinuse
    · rw [Function.update_of_ne (hne q hq e)]
      have hok := h.page q hq
      refine hok.congr (by rw [u.other q.2 (hne q hq e)]; exact .refl _) (u.sizes q.1)
        (fun o ho => ?_) (hother q hq e)
      -- a free object of another page lies outside the page that changed
      have hb := hok.fits.bounds (hok.keeps.free_obj ho)
      have hsize := hok.fits.size
      have hap := h.regions.of_ne hq hp e
      refine (Memory.link_mark_congr (fun x _ _ => u.bytes x (fun hx => ?_))).1
      unfold ObjArray.Has at hx
      unfold arr at hx hb hsize
      dsimp only at hx hb hap hsize
      omega
  · have hof : pagesOf z' d = pagesOf z d := by
      unfold pagesOf
      rw [u.pages]
    rw [hof]
    by_cases e : d = p.1
    · subst e
      have hsum := sum_map_change (f := fun b => (z.page b).inuse) (g := fun b => (z'.page b).inuse)
        (h.pagesOf_nodup (c := p.1)) (mem_pagesOf.mpr hp) (fun b _ hb => by rw [u.other b hb])
      have := h.active p.1 hd
      omega
    · rw [u.caches d e, h.active d hd]
      congr 1
      refine List.map_congr_left (fun b hb => ?_)
      have hbp : b ≠ p.2 := fun hb' =>
        e (congrArg Prod.fst (h.page_ext (mem_pagesOf.mp hb) hp hb'))
      rw [u.other b hbp]
  · intro o ho
    rcases hsub o ho with ho | hin
    · obtain ⟨q, hq, hin⟩ := h.out_page o ho
      exact ⟨q, u.pages ▸ hq, by rw [u.arr_eq]; exact hin⟩
    · exact ⟨p, u.pages ▸ hp, by rw [u.arr_eq]; exact hin⟩

theorem Pages.inuse_le_active (h : Pages z cs out fl) (hp : p ∈ z.pages) :
    (z.page p.2).inuse ≤ (z.cache p.1).activeObjects := by
  rw [h.active p.1 (h.owner p hp)]
  exact le_sum_of_mem (fun a => (z.page a).inuse) (mem_pagesOf.mpr hp)

theorem putsFree_setObject {magic : Nat} (h : magic < wordSize) :
    Memory.PutsFree (setObject magic) magic where
  link := by
    intro m a v hv
    unfold setObject Memory.link
    rw [Memory.load32_store32]
    exact Nat.mod_eq_of_lt hv
  mark := by
    intro m a v
    unfold setObject Memory.mark
    rw [Memory.load32_store32_of_disjoint (by omega), Memory.load32_store32]
    exact Nat.mod_eq_of_lt h
  other := by
    intro m a v c hc
    unfold setObject
    rw [Memory.store32_eq_of_outside (by omega), Memory.store32_eq_of_outside (by omega)]

/-- The words of other objects when those of one are written. -/
theorem Pages.link_setObject (h : Pages z cs out fl) {magic v x : Nat} (hp : p ∈ z.pages)
    (hq : q ∈ z.pages) (ho : o ∈ (arr z p).objs) (hx : x ∈ (arr z q).objs) (hne : x ≠ o)
    (hmagic : magic < wordSize) : (setObject magic z.mem o v).link x = z.mem.link x := by
  have hap := h.apart hp hq ho hx
  have h₁ := (h.page p hp).fits.size
  have h₂ := (h.page q hq).fits.size
  exact (Memory.link_mark_congr (fun y _ _ =>
    (putsFree_setObject hmagic).other z.mem o v y (by omega))).1

/-- **`alloc_from_page`**, with the counter its caller updates. -/
theorem Pages.take {t : List Nat} (h : Pages z cs out fl) (hp : p ∈ z.pages) (hfl : fl p.2 = o :: t)
    (u : OnePage z z' p)
    (hpage : z'.page p.2 = { z.page p.2 with
      freelist := z.mem.link o, inuse := inc32 (z.page p.2).inuse })
    (hmem : z'.mem = setObject slubMagic z.mem o 0)
    (hact : (z'.cache p.1).activeObjects = inc32 (z.cache p.1).activeObjects) :
    Pages z' cs (o :: out) (Function.update fl p.2 t) := by
  have hok : PageOk z out p (o :: t) := hfl ▸ h.page p hp
  have hobj := hok.keeps.free_obj List.mem_cons_self
  have hin := hok.fits.has hobj
  have hnew := hok.keeps.not_out hok.fits List.mem_cons_self
  -- neither counter wraps
  have hlt := h.active_lt (h.owner p hp)
  have hle := h.inuse_le_active hp
  have hflen : (fl p.2).length ≤ ((pagesOf z p.1).map (fun a => (fl a).length)).sum :=
    le_sum_of_mem (fun a => (fl a).length) (mem_pagesOf.mpr hp)
  have hsum := h.active p.1 (h.owner p hp)
  rw [hfl, List.length_cons] at hflen
  have hi : inc32 (z.page p.2).inuse = (z.page p.2).inuse + 1 := inc32_eq (by omega)
  have ha : inc32 (z.cache p.1).activeObjects = (z.cache p.1).activeObjects + 1 := inc32_eq (by omega)
  have hnd := hok.keeps.nodup hok.fits
  refine h.onePage hp u ?_ ?_ (fun q hq hne => ?_) (List.nodup_cons.mpr ⟨hnew, h.out_nodup⟩)
    (fun x hx => ?_) ?_
  · rw [hpage]
    refine hok.keeps.take hok.fits (fun x hx => ?_)
    rw [hmem]
    refine h.link_setObject hp hp hobj (hok.keeps.free_obj (List.mem_cons_of_mem o hx)) ?_ (by decide)
    rintro rfl
    exact (List.nodup_cons.mp (List.cons_append ▸ hnd)).1 (List.mem_append_left _ hx)
  · rw [hpage, ObjArray.outOf_cons_self hin, List.length_cons, ← hok.inuse]
    exact hi
  · rw [ObjArray.outOf_cons_other (fun hq' => hne (h.page_unique hq hp hq' hin))]
  · rcases List.mem_cons.mp hx with rfl | hx
    · exact Or.inr hin
    · exact Or.inl hx
  · rw [hpage, hact, ha]
    dsimp only
    rw [hi]
    omega

/-- **`free_to_page`**, with the counter its caller updates. -/
theorem Pages.give (h : Pages z cs out fl) (hp : p ∈ z.pages) (ho : o ∈ out) (hin : (arr z p).Has o)
    (u : OnePage z z' p)
    (hpage : z'.page p.2 = { z.page p.2 with freelist := o, inuse := dec32 (z.page p.2).inuse })
    (hmem : z'.mem = setObject 0 z.mem o (z.page p.2).freelist)
    (hact : (z'.cache p.1).activeObjects = dec32 (z.cache p.1).activeObjects) :
    Pages z' cs (out.erase o) (Function.update fl p.2 (o :: fl p.2)) := by
  have hok := h.page p hp
  have hobj := hok.keeps.out_obj ho hin
  have hlen := (ObjArray.outOf_erase ho hin).length_eq
  rw [List.length_cons] at hlen
  have hinuse := hok.inuse
  have hle := h.inuse_le_active hp
  have hi : dec32 (z.page p.2).inuse = ((arr z p).outOf (out.erase o)).length := by
    rw [dec32_eq (by omega)]
    omega
  have ha : dec32 (z.cache p.1).activeObjects = (z.cache p.1).activeObjects - 1 := dec32_eq (by omega)
  refine h.onePage hp u ?_ ?_ (fun q hq hne => ?_) (h.out_nodup.erase o)
    (fun x hx => Or.inl (List.mem_of_mem_erase hx)) ?_
  · rw [hpage]
    refine hok.keeps.give hok.fits ho hin ?_ (fun x hx => ?_)
    · rw [hmem]
      exact (putsFree_setObject (by decide)).link z.mem o _ (hok.keeps.head_lt hok.fits)
    · rw [hmem]
      refine h.link_setObject hp hp hobj (hok.keeps.free_obj hx) ?_ (by decide)
      rintro rfl
      exact hok.keeps.not_out hok.fits hx ho
  · rw [hpage]
    exact hi
  · exact ObjArray.outOf_erase_other ho (fun hq' => hne (h.page_unique hq hp hq' hin))
  · rw [hpage, hact, ha]
    dsimp only
    rw [hi]
    omega

/-! ## A page comes, a page goes -/

/-- The array of a page the buddy allocator has just given. -/
def newArr (z : SlubAllocator) (c : Nat) (b : SlubMem) : ObjArray where
  base := b.base
  len := pageBytes (z.cache c).order
  size := (z.cache c).size
  count := (z.cache c).objectsPerPage

/-- The loop of `init_page_objects`. -/
def initPageObjects (z : SlubAllocator) (c : Nat) (b : SlubMem) : Memory × Nat :=
  Memory.thread (setObject 0) (z.cache c).size (z.cache c).objectsPerPage z.mem b.base 0

/-- The descriptor `alloc_slub_page` writes. -/
def newDesc (z : SlubAllocator) (c : Nat) (b : SlubMem) : SlubPage where
  pageBase := b.base
  freelist := (initPageObjects z c b).2
  inuse := 0
  objects := (z.cache c).objectsPerPage
  order := (z.cache c).order
  next := 0

/-- The region the buddy allocator gives is new. -/
structure NewPage (z : SlubAllocator) (c : Nat) (b : SlubMem) : Prop where
  nonnull : b.page ≠ 0
  fresh : b.page ∉ z.pages.map Prod.snd
  base : b.base ≠ 0
  space : b.base + pageBytes (z.cache c).order < wordSize
  apart : ∀ p ∈ z.pages, SlubHeap.Off b.base (pageBytes (z.cache c).order) (z.page p.2).pageBase
    (SlubHeap.pageLen z p)

theorem NewPage.ne {b : SlubMem} (hb : NewPage z c b) (hp : p ∈ z.pages) : p.2 ≠ b.page :=
  fun e => hb.fresh (List.mem_map.mpr ⟨p, hp, e⟩)

theorem NewPage.fits {b : SlubMem} (hb : NewPage z c b) (hc : CacheOk (z.cache c)) :
    (newArr z c b).Fits where
  base := hb.base
  space := hb.space
  size := hc.size
  count := hc.fit

/-- No object outside lies in the new page. -/
theorem Pages.not_in_new {b : SlubMem} (h : Pages z cs out fl) (hb : NewPage z c b) (ho : o ∈ out) :
    ¬ (newArr z c b).Has o := by
  intro hin
  obtain ⟨p, hp, hin'⟩ := h.out_page o ho
  have hap := hb.apart p hp
  unfold ObjArray.Has at hin hin'
  unfold newArr at hin
  unfold arr at hin'
  unfold SlubHeap.Off at hap
  dsimp only at hin hin'
  omega

/-- The allocator with a page more: its descriptor is written, its objects are
on its list. -/
structure PageAdded (z z' : SlubAllocator) (c : Nat) (b : SlubMem) : Prop where
  pages : z'.pages = (c, b.page) :: z.pages
  mem : z'.mem = (initPageObjects z c b).1
  self : SameBody (newDesc z c b) (z'.page b.page)
  other : ∀ a, a ≠ b.page → SameBody (z.page a) (z'.page a)
  sizes : ∀ d, SameSizes (z.cache d) (z'.cache d)
  active : ∀ d, (z'.cache d).activeObjects = (z.cache d).activeObjects

theorem PageAdded.arr_self {b : SlubMem} (u : PageAdded z z' c b) :
    arr z' (c, b.page) = newArr z c b := by
  obtain ⟨n, hself⟩ := u.self
  unfold arr newArr SlubHeap.pageLen
  dsimp only
  rw [hself, (u.sizes c).1, (u.sizes c).2.1]
  rfl

theorem PageAdded.arr_other {b : SlubMem} (u : PageAdded z z' c b) (hb : NewPage z c b)
    (hp : p ∈ z.pages) : arr z' p = arr z p := by
  obtain ⟨k, e⟩ := u.other p.2 (hb.ne hp)
  exact arr_congr (by rw [e]; exact ⟨rfl, rfl⟩) (u.sizes p.1)

theorem PageAdded.old_region {b : SlubMem} (u : PageAdded z z' c b) (hb : NewPage z c b)
    (hp : p ∈ z.pages) : (z'.page p.2).pageBase = (z.page p.2).pageBase ∧
      SlubHeap.pageLen z' p = SlubHeap.pageLen z p :=
  ⟨congrArg ObjArray.base (u.arr_other hb hp), congrArg ObjArray.len (u.arr_other hb hp)⟩

theorem PageAdded.new_region {b : SlubMem} (u : PageAdded z z' c b) :
    (z'.page b.page).pageBase = b.base ∧
      SlubHeap.pageLen z' (c, b.page) = pageBytes (z.cache c).order :=
  ⟨congrArg ObjArray.base u.arr_self, congrArg ObjArray.len u.arr_self⟩

/-- The pages lie apart, the new one from the others too. -/
theorem PageAdded.regions {b : SlubMem} (u : PageAdded z z' c b) (h : Pages z cs out fl)
    (hb : NewPage z c b) :
    Disjoints (fun p => (z'.page p.2).pageBase) (SlubHeap.pageLen z') z'.pages := by
  obtain ⟨hbase, hlen⟩ := u.new_region
  rw [u.pages]
  refine List.pairwise_cons.mpr ⟨fun p hp => ?_, ?_⟩
  · have hap := hb.apart p hp
    obtain ⟨h₁, h₂⟩ := u.old_region hb hp
    dsimp only
    rw [hbase, hlen, h₁, h₂]
    exact hap
  · refine h.regions.imp_of_mem (fun {p q} hp hq hpq => ?_)
    obtain ⟨h₁, h₂⟩ := u.old_region hb hp
    obtain ⟨h₃, h₄⟩ := u.old_region hb hq
    dsimp only at hpq ⊢
    rw [h₁, h₂, h₃, h₄]
    exact hpq

/-- The objects of the new page are all on its list. -/
theorem PageAdded.pageOk_self {b : SlubMem} (u : PageAdded z z' c b) (h : Pages z cs out fl)
    (hc : c ∈ cs) (hb : NewPage z c b) :
    PageOk z' out (c, b.page) (newArr z c b).objs.reverse := by
  have hcache := h.cache c hc
  obtain ⟨n, hself⟩ := u.self
  obtain ⟨hkeeps, _⟩ := ObjArray.keeps_thread
    (putsFree_setObject (by decide : 0 < wordSize)) (hb.fits hcache)
    (fun o ho => h.not_in_new hb ho) z.mem
  have hnil : (newArr z c b).outOf out = [] :=
    List.eq_nil_iff_forall_not_mem.mpr (fun o ho =>
      h.not_in_new hb (ObjArray.mem_outOf.mp ho).1 (ObjArray.mem_outOf.mp ho).2)
  refine ⟨hb.nonnull, ?_, ?_, ?_, ?_, ?_⟩
  · rw [hself, (u.sizes c).2.2]
    rfl
  · rw [hself, (u.sizes c).2.1]
    rfl
  · rw [u.arr_self]
    exact hb.fits hcache
  · rw [u.arr_self, hself, u.mem]
    exact hkeeps
  · rw [u.arr_self, hself, hnil]
    rfl

/-- The other pages keep theirs: a free object of another page lies outside
the new one. -/
theorem PageAdded.pageOk_other {b : SlubMem} (u : PageAdded z z' c b) (h : Pages z cs out fl)
    (hc : c ∈ cs) (hb : NewPage z c b) (hp : p ∈ z.pages) : PageOk z' out p (fl p.2) := by
  obtain ⟨_, hbytes⟩ := ObjArray.keeps_thread
    (putsFree_setObject (by decide : 0 < wordSize)) (hb.fits (h.cache c hc))
    (fun o ho => h.not_in_new hb ho) z.mem
  have hok := h.page p hp
  refine hok.congr (u.other p.2 (hb.ne hp)) (u.sizes p.1) (fun o ho => ?_) (List.Perm.refl _)
  have hbd := hok.fits.bounds (hok.keeps.free_obj ho)
  have hsize := hok.fits.size
  have hap := hb.apart p hp
  rw [u.mem]
  refine (Memory.link_mark_congr (fun x _ _ => hbytes x (fun hx => ?_))).1
  unfold ObjArray.Has newArr at hx
  unfold arr at hbd hsize
  unfold SlubHeap.Off at hap
  dsimp only at hx hbd hsize
  omega

/-- None of the objects of the new page is in use. -/
theorem PageAdded.inuse_sum {b : SlubMem} (u : PageAdded z z' c b) (hb : NewPage z c b) (d : Nat) :
    ((pagesOf z' d).map (fun a => (z'.page a).inuse)).sum =
      ((pagesOf z d).map (fun a => (z.page a).inuse)).sum := by
  obtain ⟨n, hself⟩ := u.self
  have hsame : ∀ a ∈ pagesOf z d, (z'.page a).inuse = (z.page a).inuse := by
    intro a ha
    obtain ⟨k, e⟩ := u.other a (hb.ne (mem_pagesOf.mp ha))
    rw [e]
  have hold := List.map_congr_left hsame
  unfold pagesOf at hold ⊢
  rw [u.pages, List.filter_cons]
  split
  · rw [List.map_cons, List.map_cons, List.sum_cons, hself, hold]
    exact Nat.zero_add _
  · rw [hold]

/-- **A page is added.**  All its objects are free. -/
theorem Pages.create {b : SlubMem} (h : Pages z cs out fl) (hc : c ∈ cs) (hb : NewPage z c b)
    (u : PageAdded z z' c b) :
    Pages z' cs out (Function.update fl b.page (newArr z c b).objs.reverse) := by
  refine ⟨fun d hd => (h.cache d hd).congr (u.sizes d), ?_, ?_, u.regions h hb, ?_,
    fun d hd => ?_, h.out_nodup, ?_⟩
  · rw [u.pages]
    intro p hp
    rcases List.mem_cons.mp hp with rfl | hp
    · exact hc
    · exact h.owner p hp
  · rw [u.pages, List.map_cons]
    exact List.nodup_cons.mpr ⟨hb.fresh, h.nodup⟩
  · rw [u.pages]
    intro p hp
    rcases List.mem_cons.mp hp with rfl | hp
    · dsimp only
      rw [Function.update_self]
      exact u.pageOk_self h hc hb
    · rw [Function.update_of_ne (hb.ne hp)]
      exact u.pageOk_other h hc hb hp
  · rw [u.active, h.active d hd, u.inuse_sum hb]
  · intro o ho
    obtain ⟨p, hp, hin⟩ := h.out_page o ho
    refine ⟨p, ?_, by rw [u.arr_other hb hp]; exact hin⟩
    rw [u.pages]
    exact List.mem_cons_of_mem _ hp

/-- **A page with all objects on its list is given up.** -/
theorem Pages.destroy (h : Pages z cs out fl) (hp : p ∈ z.pages) (hzero : (z.page p.2).inuse = 0)
    (hpages : z'.pages = z.pages.erase p) (hpage : z'.page = z.page) (hmem : z'.mem = z.mem)
    (hs : ∀ d, SameSizes (z.cache d) (z'.cache d))
    (hact : ∀ d, (z'.cache d).activeObjects = (z.cache d).activeObjects) : Pages z' cs out fl := by
  have hok := h.page p hp
  have hnil : (arr z p).outOf out = [] := List.eq_nil_of_length_eq_zero (hok.inuse.symm.trans hzero)
  have hsub : ∀ q ∈ z'.pages, q ∈ z.pages := by
    intro q hq
    rw [hpages] at hq
    exact List.mem_of_mem_erase hq
  have harr : ∀ q, arr z' q = arr z q :=
    fun q => arr_congr (by rw [hpage]; exact ⟨rfl, rfl⟩) (hs q.1)
  refine ⟨fun d hd => (h.cache d hd).congr (hs d), fun q hq => h.owner q (hsub q hq), ?_, ?_, ?_,
    fun d hd => ?_, h.out_nodup, ?_⟩
  · rw [hpages]
    exact h.nodup.sublist (List.erase_sublist.map _)
  · rw [hpages]
    refine List.Pairwise.imp (fun {q r} hqr => ?_) (h.regions.sublist List.erase_sublist)
    unfold SlubHeap.pageLen at hqr ⊢
    rw [hpage]
    exact hqr
  · intro q hq
    exact (h.page q (hsub q hq)).congr (by rw [hpage]; exact .refl _) (hs q.1)
      (fun o _ => by rw [hmem]) (List.Perm.refl _)
  · rw [hact, h.active d hd, hpage]
    have hperm := (((List.perm_cons_erase hp).filter (fun q => decide (q.1 = d))).map
      Prod.snd).map (fun a => (z.page a).inuse)
    unfold pagesOf
    rw [hpages, hperm.sum_eq, List.filter_cons]
    split
    · rw [List.map_cons, List.map_cons, List.sum_cons, hzero, Nat.zero_add]
    · rfl
  · intro o ho
    obtain ⟨q, hq, hin⟩ := h.out_page o ho
    refine ⟨q, ?_, by rw [harr]; exact hin⟩
    rw [hpages]
    refine (List.mem_erase_of_ne (fun e => ?_)).mpr hq
    have hm : o ∈ (arr z p).outOf out := ObjArray.mem_outOf.mpr ⟨ho, e ▸ hin⟩
    rw [hnil] at hm
    exact nomatch hm

end SlubAllocator

end KmOS
