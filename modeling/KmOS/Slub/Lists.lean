/-
# `KmOS.Slub.Lists` — the partial and the full list of a cache

The pages of a cache are on singly linked lists.  `Lists z cs L` says that heads
and links spell out the lists `L`, one for each cache and kind, with no page on
two of them.  `add_page_to_list` pushes a page, and `remove_page_from_list` walks
to the page in front of the one it takes out.
-/
import KmOS.Slub.Pages

namespace KmOS

namespace SlubAllocator

variable {z z' : SlubAllocator} {cs : List Nat} {a : Nat} {i j : Nat × SlubList}
  {L : Nat × SlubList → List Nat}

def pageNext (z : SlubAllocator) (a : Nat) : Nat := (z.page a).next

def headOf (z : SlubAllocator) (i : Nat × SlubList) : Nat := (z.cache i.1).head i.2

/-- The allocators differ in links, heads and the number of pages only. -/
structure SameObjects (z z' : SlubAllocator) : Prop where
  chain : z'.cacheChain = z.cacheChain
  sizeCaches : z'.sizeCaches = z.sizeCaches
  cpu : z'.currentCpu = z.currentCpu
  pages : z'.pages = z.pages
  buddy : z'.buddy = z.buddy
  mem : z'.mem = z.mem
  page : ∀ a, SameBody (z.page a) (z'.page a)
  cache : ∀ c, ∃ f n, z'.cache c = { z.cache c with head := f, totalPages := n }

theorem SameObjects.trans {z'' : SlubAllocator} (h : SameObjects z z') (h' : SameObjects z' z'') :
    SameObjects z z'' where
  chain := h'.chain.trans h.chain
  sizeCaches := h'.sizeCaches.trans h.sizeCaches
  cpu := h'.cpu.trans h.cpu
  pages := h'.pages.trans h.pages
  buddy := h'.buddy.trans h.buddy
  mem := h'.mem.trans h.mem
  page := fun a => by
    obtain ⟨n, e⟩ := h.page a
    obtain ⟨n', e'⟩ := h'.page a
    exact ⟨n', by rw [e', e]⟩
  cache := fun c => by
    obtain ⟨f, n, e⟩ := h.cache c
    obtain ⟨f', n', e'⟩ := h'.cache c
    exact ⟨f', n', by rw [e', e]⟩

theorem page_modPage (z : SlubAllocator) (a b : Nat) (f : SlubPage → SlubPage) :
    (z.modPage a f).page b = if b = a then f (z.page a) else z.page b := by
  unfold modPage
  dsimp only
  rw [Function.update_apply]

theorem cache_modCache (z : SlubAllocator) (c d : Nat) (f : SlubCache → SlubCache) :
    (z.modCache c f).cache d = if d = c then f (z.cache c) else z.cache d := by
  unfold modCache
  dsimp only
  rw [Function.update_apply]

theorem sameObjects_setNext (z : SlubAllocator) (a n : Nat) :
    SameObjects z (z.modPage a fun s => { s with next := n }) where
  chain := rfl
  sizeCaches := rfl
  cpu := rfl
  pages := rfl
  buddy := rfl
  mem := rfl
  page := fun b => by
    rw [page_modPage]
    split
    · next e => exact ⟨n, by rw [e]⟩
    · exact .refl _
  cache := fun c => ⟨(z.cache c).head, (z.cache c).totalPages, rfl⟩

theorem sameObjects_modCache (z : SlubAllocator) (c : Nat) {f : SlubCache → SlubCache}
    (hf : ∀ s, ∃ g n, f s = { s with head := g, totalPages := n }) : SameObjects z (z.modCache c f) where
  chain := rfl
  sizeCaches := rfl
  cpu := rfl
  pages := rfl
  buddy := rfl
  mem := rfl
  page := fun b => .refl _
  cache := fun d => by
    rw [cache_modCache]
    split
    · next e =>
        rw [e]
        exact hf _
    · exact ⟨(z.cache d).head, (z.cache d).totalPages, rfl⟩

theorem sameObjects_setHead (z : SlubAllocator) (c : Nat) (l : SlubList) (a : Nat) :
    SameObjects z (z.setHead c l a) :=
  sameObjects_modCache z c (fun s => ⟨_, s.totalPages, rfl⟩)

theorem sameObjects_addPageToList (z : SlubAllocator) (c : Nat) (l : SlubList) (a : Nat) :
    SameObjects z (z.addPageToList c l a) :=
  (sameObjects_setNext z a _).trans (sameObjects_setHead _ c l a)

theorem SameObjects.sizes (h : SameObjects z z') (c : Nat) : SameSizes (z.cache c) (z'.cache c) := by
  obtain ⟨f, n, e⟩ := h.cache c
  rw [e]
  exact ⟨rfl, rfl, rfl⟩

theorem Pages.same {out : List Nat} {fl : Nat → List Nat} (h : Pages z cs out fl)
    (hs : SameObjects z z') : Pages z' cs out fl := by
  refine h.congr hs.pages hs.page hs.sizes (fun d => ?_) (fun p _ o _ => by rw [hs.mem])
  obtain ⟨f, n, e⟩ := hs.cache d
  rw [e]

/-! ## Links and heads -/

theorem pageNext_setNext (z : SlubAllocator) (a b n : Nat) :
    pageNext (z.modPage a fun s => { s with next := n }) b = if b = a then n else pageNext z b := by
  unfold pageNext
  rw [page_modPage]
  split <;> rfl

theorem headOf_setHead (z : SlubAllocator) (i j : Nat × SlubList) (a : Nat) :
    headOf (z.setHead i.1 i.2 a) j = if j = i then a else headOf z j := by
  unfold headOf setHead
  rw [cache_modCache]
  by_cases hc : j.1 = i.1
  · rw [if_pos hc]
    dsimp only
    rw [Function.update_apply]
    by_cases hl : j.2 = i.2
    · rw [if_pos hl, if_pos (Prod.ext hc hl)]
    · rw [if_neg hl, if_neg (fun e => hl (congrArg Prod.snd e)), hc]
  · rw [if_neg hc, if_neg (fun e => hc (congrArg Prod.fst e))]

/-! ## The lists -/

/-- Heads and links spell out the lists `L`, and no page is on two of them. -/
structure Lists (z : SlubAllocator) (cs : List Nat) (L : Nat × SlubList → List Nat) : Prop where
  list : ∀ i, i.1 ∈ cs → Sll 0 (pageNext z) (headOf z i) (L i)
  nodup : ∀ i, i.1 ∈ cs → (L i).Nodup
  unique : ∀ i j, i.1 ∈ cs → j.1 ∈ cs → ∀ a, a ∈ L i → a ∈ L j → i = j

/-- The lists read the heads, and the links of the pages on them. -/
theorem Lists.congr (h : Lists z cs L) (hhead : ∀ c ∈ cs, (z'.cache c).head = (z.cache c).head)
    (hlinks : ∀ i, i.1 ∈ cs → ∀ a ∈ L i, pageNext z' a = pageNext z a) : Lists z' cs L := by
  refine ⟨fun i hi => ?_, h.nodup, h.unique⟩
  have hh : headOf z' i = headOf z i := by
    unfold headOf
    rw [hhead i.1 hi]
  rw [hh]
  exact (h.list i hi).congr (hlinks i hi)

/-- **`add_page_to_list`** of a page that is on no list. -/
theorem Lists.add (h : Lists z cs L) (hi : i.1 ∈ cs) (ha : a ≠ 0)
    (hnew : ∀ j, j.1 ∈ cs → a ∉ L j) :
    Lists (z.addPageToList i.1 i.2 a) cs (Function.update L i (a :: L i)) := by
  have hnext : ∀ b, pageNext (z.addPageToList i.1 i.2 a) b = if b = a then headOf z i else pageNext z b :=
    fun b => pageNext_setNext z a b _
  have hhead : ∀ j, headOf (z.addPageToList i.1 i.2 a) j = if j = i then a else headOf z j :=
    fun j => headOf_setHead (z.modPage a fun s => { s with next := (z.cache i.1).head i.2 }) i j a
  have hmem : ∀ j, ∀ b ∈ Function.update L i (a :: L i) j, (b = a ∧ j = i) ∨ b ∈ L j := by
    intro j b hb
    by_cases e : j = i
    · subst e
      rw [Function.update_self] at hb
      exact (List.mem_cons.mp hb).imp (fun hb => ⟨hb, rfl⟩) id
    · rw [Function.update_of_ne e] at hb
      exact Or.inr hb
  refine ⟨fun j hj => ?_, fun j hj => ?_, fun j k hj hk b hb hb' => ?_⟩
  · rw [hhead]
    by_cases e : j = i
    · subst e
      rw [Function.update_self, if_pos rfl]
      refine (h.list j hj).push ha ?_ (fun b hb => ?_)
      · rw [hnext, if_pos rfl]
      · rw [hnext, if_neg (fun e : b = a => hnew j hj (e ▸ hb))]
    · rw [Function.update_of_ne e, if_neg e]
      refine (h.list j hj).congr (fun b hb => ?_)
      rw [hnext, if_neg (fun e : b = a => hnew j hj (e ▸ hb))]
  · by_cases e : j = i
    · subst e
      rw [Function.update_self]
      exact List.nodup_cons.mpr ⟨hnew j hj, h.nodup j hj⟩
    · rw [Function.update_of_ne e]
      exact h.nodup j hj
  · rcases hmem j b hb with ⟨rfl, rfl⟩ | hb₁
    · rcases hmem k b hb' with ⟨_, rfl⟩ | hb₂
      · rfl
      · exact absurd hb₂ (hnew k hk)
    · rcases hmem k b hb' with ⟨rfl, rfl⟩ | hb₂
      · exact absurd hb₁ (hnew j hj)
      · exact h.unique j k hj hk b hb₁ hb₂

/-- The walk of `remove_page_from_list` ends at the page in front. -/
theorem removeLoop_spec {l : List Nat} {head fuel : Nat} (hl : Sll 0 (pageNext z) head l)
    (hfuel : l.length < fuel) (ha : a ∈ l) (hne : head ≠ a) :
    ∃ b, z.removeLoop a fuel head = some b ∧ b ∈ l ∧ b ≠ 0 ∧ pageNext z b = a := by
  induction fuel generalizing l head with
  | zero => exact absurd hfuel (Nat.not_lt_zero _)
  | succ fuel ih =>
      unfold removeLoop
      cases l with
      | nil => exact nomatch ha
      | cons b l =>
          obtain ⟨rfl, hb0, ht⟩ := hl
          have ha' := (List.mem_cons.mp ha).resolve_left hne.symm
          by_cases e : pageNext z head = a
          · exact ⟨head, if_neg (fun h => h.2 e), List.mem_cons_self, hb0, e⟩
          · rw [if_pos ⟨hb0, e⟩]
            obtain ⟨b, hb, hbl, hb0', hbn⟩ := ih ht (Nat.lt_of_succ_lt_succ hfuel) ha' e
            exact ⟨b, hb, List.mem_cons_of_mem head hbl, hb0', hbn⟩

/-- **`remove_page_from_list`** of a page on the list. -/
theorem Lists.remove (h : Lists z cs L) (hi : i.1 ∈ cs) (ha : a ∈ L i) (hlen : (L i).length < turns) :
    ∃ z', z.removePageFromList i.1 i.2 a = some z' ∧ SameObjects z z' ∧
      Lists z' cs (Function.update L i ((L i).erase a)) := by
  have hlist := h.list i hi
  have ha0 : a ≠ 0 := hlist.ne_null a ha
  -- what both branches do to links and heads
  have key : ∀ z', SameObjects z z' →
      (∀ j, headOf z' j = if j = i ∧ headOf z i = a then pageNext z a else headOf z j) →
      (∀ b, b ∈ L i → pageNext z' b = if pageNext z b = a then pageNext z a else pageNext z b) →
      (∀ b, b ∉ L i → pageNext z' b = pageNext z b) →
      Lists z' cs (Function.update L i ((L i).erase a)) := by
    intro z' _ hhead hin hout
    have hsub : ∀ j, ∀ b ∈ Function.update L i ((L i).erase a) j, b ∈ L j := by
      intro j b hb
      by_cases e : j = i
      · subst e
        rw [Function.update_self] at hb
        exact List.mem_of_mem_erase hb
      · rwa [Function.update_of_ne e] at hb
    refine ⟨fun j hj => ?_, fun j hj => ?_, fun j k hj hk b hb hb' =>
      h.unique j k hj hk b (hsub j b hb) (hsub k b hb')⟩
    · rw [hhead]
      by_cases e : j = i
      · subst e
        rw [Function.update_self]
        simp only [true_and]
        exact hlist.unlink (h.nodup j hj) ha (fun b hb => hin b (List.mem_of_mem_erase hb))
      · rw [Function.update_of_ne e, if_neg (fun h => e h.1)]
        refine (h.list j hj).congr (fun b hb => hout b (fun hb' => e (h.unique j i hj hi b hb hb')))
    · by_cases e : j = i
      · subst e
        rw [Function.update_self]
        exact (h.nodup j hj).erase a
      · rw [Function.update_of_ne e]
        exact h.nodup j hj
  unfold removePageFromList
  by_cases hhead : (z.cache i.1).head i.2 = a
  · rw [if_pos hhead]
    refine ⟨_, rfl, sameObjects_setHead z i.1 i.2 _,
      key _ (sameObjects_setHead z i.1 i.2 _) (fun j => ?_) (fun b hb => ?_) (fun b _ => rfl)⟩
    · rw [headOf_setHead]
      have hh : headOf z i = a := hhead
      simp only [hh, and_true]
      rfl
    · -- nothing leads to the first page
      have hh : headOf z i = a := hhead
      obtain ⟨t, ht, hrest⟩ := hlist.exists_cons (by rw [hh]; exact ha0)
      have hnd := h.nodup i hi
      rw [ht] at hnd
      have hat : a ∉ t := hh ▸ (List.nodup_cons.mp hnd).1
      have hnot : pageNext z b ≠ a := by
        intro hba
        rw [ht] at hb
        rcases List.mem_cons.mp hb with rfl | hb
        · rw [hh] at hba hrest
          cases t with
          | nil => exact ha0 (hba ▸ hrest)
          | cons x t =>
              have hx : pageNext z a = x := hrest.1
              exact hat (by rw [← hba, hx]; exact List.mem_cons_self)
        · rcases hrest.next_mem hb with h0 | hm
          · exact ha0 (hba ▸ h0)
          · exact hat (hba ▸ hm)
      rw [if_neg hnot]
      rfl
  · rw [if_neg hhead]
    obtain ⟨b, hb, hbl, hb0, hbn⟩ := removeLoop_spec hlist hlen ha hhead
    have hb' : z.removeLoop a turns ((z.cache i.1).head i.2) = some b := hb
    rw [hb']
    show ∃ z', (if b ≠ 0 then _ else _) = some z' ∧ _
    rw [if_pos hb0]
    refine ⟨_, rfl, sameObjects_setNext z b _,
      key _ (sameObjects_setNext z b _) (fun j => ?_) (fun x hx => ?_) (fun x hx => ?_)⟩
    · rw [if_neg (fun h => hhead h.2)]
      rfl
    · rw [pageNext_setNext]
      by_cases e : x = b
      · rw [if_pos e, if_pos (e ▸ hbn)]
        rfl
      · rw [if_neg e, if_neg]
        intro hxa
        exact e (hlist.pred_unique (h.nodup i hi) hx hbl (hxa ▸ ha0) (hxa.trans hbn.symm))
    · rw [pageNext_setNext, if_neg (fun e : x = b => hx (e ▸ hbl))]

/-- The lists after a move. -/
def moved (L : Nat × SlubList → List Nat) (i j : Nat × SlubList) (a : Nat) : Nat × SlubList → List Nat :=
  Function.update (Function.update L i ((L i).erase a)) j (a :: L j)

theorem mem_erased (h : Lists z cs L) (hi : i.1 ∈ cs) (ha : a ∈ L i) {k : Nat × SlubList}
    (hk : k.1 ∈ cs) {b : Nat} :
    b ∈ Function.update L i ((L i).erase a) k ↔ b ≠ a ∧ b ∈ L k := by
  by_cases e : k = i
  · subst e
    rw [Function.update_self]
    exact (h.nodup k hk).mem_erase_iff
  · rw [Function.update_of_ne e]
    exact ⟨fun hb => ⟨fun hba => e (h.unique k i hk hi a (hba ▸ hb) ha), hb⟩, And.right⟩

theorem mem_moved (h : Lists z cs L) (hi : i.1 ∈ cs) (ha : a ∈ L i) (hij : i ≠ j)
    {k : Nat × SlubList} (hk : k.1 ∈ cs) {b : Nat} :
    b ∈ moved L i j a k ↔ (b = a ∧ k = j) ∨ (b ≠ a ∧ b ∈ L k) := by
  unfold moved
  by_cases e : k = j
  · subst e
    rw [Function.update_self, List.mem_cons]
    constructor
    · rintro (rfl | hb)
      · exact Or.inl ⟨rfl, rfl⟩
      · exact Or.inr ⟨fun hba => hij (h.unique i k hi hk a ha (hba ▸ hb)), hb⟩
    · rintro (⟨rfl, _⟩ | ⟨_, hb⟩)
      · exact Or.inl rfl
      · exact Or.inr hb
  · rw [Function.update_of_ne e, mem_erased h hi ha hk]
    exact ⟨Or.inr, fun hb => hb.resolve_left (fun hb => e hb.2)⟩

/-- A page goes from one list to another. -/
theorem Lists.move (h : Lists z cs L) (hi : i.1 ∈ cs) (hj : j.1 ∈ cs) (ha : a ∈ L i) (hij : i ≠ j)
    (hlen : (L i).length < turns) :
    ∃ z₁, z.removePageFromList i.1 i.2 a = some z₁ ∧ SameObjects z (z₁.addPageToList j.1 j.2 a) ∧
      Lists (z₁.addPageToList j.1 j.2 a) cs (moved L i j a) := by
  obtain ⟨z₁, hz₁, hs, hl⟩ := h.remove hi ha hlen
  refine ⟨z₁, hz₁, hs.trans (sameObjects_addPageToList z₁ j.1 j.2 a), ?_⟩
  have hnew : ∀ k, k.1 ∈ cs → a ∉ Function.update L i ((L i).erase a) k :=
    fun k hk hm => ((mem_erased h hi ha hk).mp hm).1 rfl
  have hadd := hl.add hj ((h.list i hi).ne_null a ha) hnew
  rw [Function.update_of_ne hij.symm] at hadd
  exact hadd

end SlubAllocator

end KmOS
