/-
# `KmOS.Slub.Invariant` — pages, lists and the per-CPU layer together

`SlubInv` is the invariant of the allocator, and this module shows that each
step of `cache_alloc` and `cache_free` keeps it: a page is added or given up, an
object leaves or enters its page, goes to rest or wakes.  Between taking an object
from a page and moving that page, the page may be on the wrong list; the last
argument of `SlubInv` names the page that is excepted, 0 for none.
-/
import KmOS.Slub.PerCpu

namespace KmOS

namespace SlubAllocator

/-- What is at rest, free and on lists: the objects `out` outside their pages, the
lists of pages, the free objects of a page, and the lists of the CPUs. -/
structure Ghost where
  out : List Nat
  lists : Nat × SlubList → List Nat
  fl : Nat → List Nat
  cf : Nat × Nat → List Nat

/-- A page on the list `l` belongs there. -/
def Placed (z : SlubAllocator) (l : SlubList) (b : Nat) : Prop :=
  l = .fullPages ↔ (z.page b).inuse = (z.page b).objects

/-- **The invariant**, with the page `a` excepted from being on the right
list. -/
structure SlubInv (z : SlubAllocator) (cs : List Nat) (live blocks : List (Nat × Nat)) (g : Ghost)
    (a : Nat) : Prop where
  chain : Sll 0 (fun c => (z.cache c).next) z.cacheChain cs
  nodup : cs.Nodup
  small : ∀ c ∈ cs, c < wordSize
  sizeCaches : ∀ n, z.sizeCaches n = 0 ∨ z.sizeCaches n ∈ cs
  lists : Lists z cs g.lists
  onList : ∀ c ∈ cs, ∀ b, (c, b) ∈ z.pages ↔ ∃ l, b ∈ g.lists (c, l)
  placed : ∀ i, i.1 ∈ cs → ∀ b ∈ g.lists i, b ≠ a → Placed z i.2 b
  pages : Pages z cs g.out g.fl
  cpu : Cpu z cs live g.out g.cf
  blocks : ∀ p ∈ z.pages, ∀ k ∈ blocks,
    SlubHeap.Off (z.page p.2).pageBase (SlubHeap.pageLen z p) k.1 k.2

variable {z z' : SlubAllocator} {cs : List Nat} {live live' blocks : List (Nat × Nat)} {g : Ghost}
  {a c o : Nat} {i j : Nat × SlubList}

theorem SlubInv.ne_zero (h : SlubInv z cs live blocks g a) (hi : i.1 ∈ cs) {b : Nat}
    (hb : b ∈ g.lists i) : b ≠ 0 :=
  (h.lists.list i hi).ne_null b hb

/-- A page is on one list only. -/
theorem SlubInv.list_unique (h : SlubInv z cs live blocks g a) (hi : i.1 ∈ cs) (hj : j.1 ∈ cs) {b : Nat}
    (hb : b ∈ g.lists i) (hb' : b ∈ g.lists j) : i = j :=
  h.lists.unique i j hi hj b hb hb'

/-- There are fewer pages than addresses. -/
theorem Pages.length_lt {out : List Nat} {fl : Nat → List Nat} (h : Pages z cs out fl) (hc : c ∈ cs) :
    (pagesOf z c).length < turns := by
  have hsum := sum_weights_lt (w := fun _ => 1) (N := wordSize) (h.regionsOf c) (by decide)
    (fun b hb => by
      have hok := h.page _ (mem_pagesOf.mp hb)
      refine ⟨?_, hok.fits.space⟩
      have hord := hok.order
      dsimp only at hord
      rw [hord]
      exact Nat.le_trans (h.cache c hc).some (h.cache c hc).num_le)
  rwa [List.map_const', List.sum_replicate_nat, Nat.mul_one] at hsum

theorem SlubInv.list_lt (h : SlubInv z cs live blocks g a) (hi : i.1 ∈ cs) :
    (g.lists i).length < turns := by
  refine Nat.lt_of_le_of_lt ((h.lists.nodup i hi).subperm ?_).length_le (h.pages.length_lt hi)
  intro b hb
  exact mem_pagesOf.mpr ((h.onList i.1 hi b).mpr ⟨i.2, hb⟩)

/-! ## What each kind of step leaves alone -/

/-- Links and heads of lists, and the regions of the pages, stay. -/
structure Frame (z z' : SlubAllocator) : Prop where
  chain : z'.cacheChain = z.cacheChain
  sizeCaches : z'.sizeCaches = z.sizeCaches
  pages : z'.pages = z.pages
  buddy : z'.buddy = z.buddy
  cpu : z'.currentCpu = z.currentCpu
  next : ∀ b, pageNext z' b = pageNext z b
  base : ∀ b, (z'.page b).pageBase = (z.page b).pageBase
  order : ∀ b, (z'.page b).order = (z.page b).order
  cacheNext : ∀ d, (z'.cache d).next = (z.cache d).next
  head : ∀ d, (z'.cache d).head = (z.cache d).head
  sizes : ∀ d, SameSizes (z.cache d) (z'.cache d)
  flags : ∀ d, (z'.cache d).flags = (z.cache d).flags

theorem Frame.trans {z'' : SlubAllocator} (h : Frame z z') (h' : Frame z' z'') : Frame z z'' where
  chain := h'.chain.trans h.chain
  sizeCaches := h'.sizeCaches.trans h.sizeCaches
  pages := h'.pages.trans h.pages
  buddy := h'.buddy.trans h.buddy
  cpu := h'.cpu.trans h.cpu
  next := fun b => (h'.next b).trans (h.next b)
  base := fun b => (h'.base b).trans (h.base b)
  order := fun b => (h'.order b).trans (h.order b)
  cacheNext := fun d => (h'.cacheNext d).trans (h.cacheNext d)
  head := fun d => (h'.head d).trans (h.head d)
  sizes := fun d => ⟨(h'.sizes d).1.trans (h.sizes d).1, (h'.sizes d).2.1.trans (h.sizes d).2.1,
    (h'.sizes d).2.2.trans (h.sizes d).2.2⟩
  flags := fun d => (h'.flags d).trans (h.flags d)

theorem Frame.arr_eq (hf : Frame z z') (p : Nat × Nat) : arr z' p = arr z p :=
  arr_congr ⟨hf.base p.2, hf.order p.2⟩ (hf.sizes p.1)

/-- **The rule for steps that touch no list.** -/
theorem SlubInv.frame {out : List Nat} {fl : Nat → List Nat} {cf : Nat × Nat → List Nat} {a' : Nat}
    (h : SlubInv z cs live blocks g a) (hf : Frame z z') (hpages : Pages z' cs out fl)
    (hcpu : Cpu z' cs live' out cf)
    (hsame : ∀ b, b ≠ 0 → b ≠ a' → b ≠ a ∧ (z'.page b).inuse = (z.page b).inuse ∧
      (z'.page b).objects = (z.page b).objects) :
    SlubInv z' cs live' blocks ⟨out, g.lists, fl, cf⟩ a' where
  chain := by
    rw [hf.chain]
    exact h.chain.congr (fun c _ => hf.cacheNext c)
  nodup := h.nodup
  small := h.small
  sizeCaches := by
    rw [hf.sizeCaches]
    exact h.sizeCaches
  lists := h.lists.congr (fun c _ => hf.head c) (fun _ _ b _ => hf.next b)
  onList := by
    rw [hf.pages]
    exact h.onList
  placed := fun i hi b hb hne => by
    obtain ⟨hba, h₁, h₂⟩ := hsame b (h.ne_zero hi hb) hne
    unfold Placed
    rw [h₁, h₂]
    exact h.placed i hi b hb hba
  pages := hpages
  cpu := hcpu
  blocks := by
    rw [hf.pages]
    intro p hp k hk
    unfold SlubHeap.pageLen
    rw [hf.base, hf.order]
    exact h.blocks p hp k hk

theorem Cpu.same {out : List Nat} {cf : Nat × Nat → List Nat} (h : Cpu z cs live out cf)
    (hs : SameObjects z z') : Cpu z' cs live out cf := by
  refine h.congr (fun i _ => ?_) (fun _ _ o _ => by rw [hs.mem]) (fun c a o _ ha hin => ?_)
  · obtain ⟨f, n, e⟩ := hs.cache i.1
    unfold cpuAt
    rw [e]
  · obtain ⟨n, e⟩ := hs.page a
    refine ⟨hs.pages ▸ ha, ?_⟩
    rw [arr_congr (p := (c, a)) (by rw [e]; exact ⟨rfl, rfl⟩) (hs.sizes c)]
    exact hin

/-- **The rule for steps that touch lists only.** -/
theorem SlubInv.relist {L : Nat × SlubList → List Nat} {a' : Nat} (h : SlubInv z cs live blocks g a)
    (hs : SameObjects z z') (hl : Lists z' cs L)
    (hon : ∀ c ∈ cs, ∀ b, (∃ l, b ∈ L (c, l)) ↔ ∃ l, b ∈ g.lists (c, l))
    (hpl : ∀ i, i.1 ∈ cs → ∀ b ∈ L i, b ≠ a' → Placed z i.2 b) :
    SlubInv z' cs live blocks ⟨g.out, L, g.fl, g.cf⟩ a' where
  chain := by
    rw [hs.chain]
    refine h.chain.congr (fun c _ => ?_)
    obtain ⟨f, n, e⟩ := hs.cache c
    rw [e]
  nodup := h.nodup
  small := h.small
  sizeCaches := by
    rw [hs.sizeCaches]
    exact h.sizeCaches
  lists := hl
  onList := fun c hc b => by
    rw [hs.pages, hon c hc b]
    exact h.onList c hc b
  placed := fun i hi b hb hne => by
    obtain ⟨n, e⟩ := hs.page b
    unfold Placed
    rw [e]
    exact hpl i hi b hb hne
  pages := h.pages.same hs
  cpu := h.cpu.same hs
  blocks := by
    rw [hs.pages]
    intro p hp k hk
    obtain ⟨n, e⟩ := hs.page p.2
    unfold SlubHeap.pageLen
    rw [e]
    exact h.blocks p hp k hk

/-- **A page is moved** to the list it belongs on. -/
theorem SlubInv.move (h : SlubInv z cs live blocks g a) {l k : SlubList} (hc : c ∈ cs)
    (ha : a ∈ g.lists (c, l)) (hlk : l ≠ k) (hk : Placed z k a) :
    ∃ z₁, z.removePageFromList c l a = some z₁ ∧ SameObjects z (z₁.addPageToList c k a) ∧
      a ∈ moved g.lists (c, l) (c, k) a (c, k) ∧
      SlubInv (z₁.addPageToList c k a) cs live blocks
        ⟨g.out, moved g.lists (c, l) (c, k) a, g.fl, g.cf⟩ 0 := by
  have hij : ((c, l) : Nat × SlubList) ≠ (c, k) := fun e => hlk (congrArg Prod.snd e)
  obtain ⟨z₁, hz₁, hs, hl⟩ := h.lists.move (i := (c, l)) (j := (c, k)) hc hc ha hij (h.list_lt hc)
  refine ⟨z₁, hz₁, hs, ?_, h.relist hs hl (fun d hd b => ?_) (fun i hi b hb _ => ?_)⟩
  · exact (mem_moved h.lists hc ha hij (k := (c, k)) hc).mpr (Or.inl ⟨rfl, rfl⟩)
  · constructor
    · rintro ⟨m, hm⟩
      rcases (mem_moved h.lists hc ha hij (k := (d, m)) hd).mp hm with ⟨rfl, e⟩ | ⟨_, hm⟩
      · have hdc : d = c := congrArg Prod.fst e
        exact ⟨l, hdc ▸ ha⟩
      · exact ⟨m, hm⟩
    · rintro ⟨m, hm⟩
      by_cases e : b = a
      · subst e
        have hdc := h.list_unique (i := (d, m)) (j := (c, l)) hd hc hm ha
        have hd' : d = c := congrArg Prod.fst hdc
        subst hd'
        exact ⟨k, (mem_moved h.lists hd ha hij (k := (d, k)) hd).mpr (Or.inl ⟨rfl, rfl⟩)⟩
      · exact ⟨m, (mem_moved h.lists hc ha hij (k := (d, m)) hd).mpr (Or.inr ⟨e, hm⟩)⟩
  · rcases (mem_moved h.lists hc ha hij hi).mp hb with ⟨rfl, rfl⟩ | ⟨hne, hb⟩
    · exact hk
    · exact h.placed i hi b hb hne

/-- A page that stays where it is. -/
theorem SlubInv.stay (h : SlubInv z cs live blocks g a) {l : SlubList} (hc : c ∈ cs)
    (ha : a ∈ g.lists (c, l)) (hl : Placed z l a) : SlubInv z cs live blocks g 0 := by
  have hplaced : ∀ i, i.1 ∈ cs → ∀ b ∈ g.lists i, b ≠ 0 → Placed z i.2 b := by
    intro i hi b hb _
    by_cases e : b = a
    · subst e
      obtain rfl := h.list_unique (j := (c, l)) hi hc hb ha
      exact hl
    · exact h.placed i hi b hb e
  exact { h with placed := hplaced }

/-- **`moveIfFull`.** -/
theorem SlubInv.moveIfFull (h : SlubInv z cs live blocks g a) (hc : c ∈ cs)
    (ha : a ∈ g.lists (c, .partialPages)) :
    ∃ z' g', z.moveIfFull c a = some z' ∧ SameObjects z z' ∧ g'.out = g.out ∧
      SlubInv z' cs live blocks g' 0 := by
  unfold SlubAllocator.moveIfFull
  by_cases hfull : (z.page a).inuse = (z.page a).objects
  · rw [if_pos hfull]
    obtain ⟨z₁, hz₁, hs, _, hinv⟩ := h.move (k := .fullPages) hc ha (by decide)
      ⟨fun _ => hfull, fun _ => rfl⟩
    exact ⟨_, ⟨g.out, moved g.lists (c, .partialPages) (c, .fullPages) a, g.fl, g.cf⟩,
      by rw [hz₁]; rfl, hs, rfl, hinv⟩
  · rw [if_neg hfull]
    refine ⟨z, g, rfl, ⟨rfl, rfl, rfl, rfl, rfl, rfl, fun _ => .refl _, fun d => ⟨_, _, rfl⟩⟩, rfl, ?_⟩
    exact h.stay hc ha ⟨nofun, fun e => absurd e hfull⟩

end SlubAllocator

end KmOS
