/-
# `KmOS.Slab.Lists` — the three lists of a cache

`move_slab` takes a slab off one list of its cache and puts it in front of
another.  It rewrites links of four descriptors at most and the two heads;
everything else of the allocator stays (`SameObjects`).  `Lists z cs L` says that
the heads and links of the caches `cs` spell out the lists `L`, with every slab
on one of them only, and `Lists.move` that a move does to `L` what it should.
-/
import KmOS.Lib.Dll
import KmOS.Slab.Model

namespace KmOS

namespace SlabAllocator

variable {z z' : SlabAllocator} {cs : List Nat} {c a : Nat} {src dst l : SlabList}
  {L : Nat → SlabList → List Nat}

def slabNext (z : SlabAllocator) (a : Nat) : Nat := (z.slab a).next
def slabPrev (z : SlabAllocator) (a : Nat) : Nat := (z.slab a).prev

/-- The allocators differ in links and heads only. -/
structure SameObjects (z z' : SlabAllocator) : Prop where
  chain : z'.cacheChain = z.cacheChain
  slabs : z'.slabs = z.slabs
  mem : z'.mem = z.mem
  slab : ∀ a, ∃ n p, z'.slab a = { z.slab a with next := n, prev := p }
  cache : ∀ c, ∃ f, z'.cache c = { z.cache c with head := f }

theorem SameObjects.refl (z : SlabAllocator) : SameObjects z z where
  chain := rfl
  slabs := rfl
  mem := rfl
  slab := fun a => ⟨(z.slab a).next, (z.slab a).prev, rfl⟩
  cache := fun c => ⟨(z.cache c).head, rfl⟩

theorem SameObjects.trans {z'' : SlabAllocator} (h : SameObjects z z') (h' : SameObjects z' z'') :
    SameObjects z z'' where
  chain := h'.chain.trans h.chain
  slabs := h'.slabs.trans h.slabs
  mem := h'.mem.trans h.mem
  slab := fun a => by
    obtain ⟨n, p, e⟩ := h.slab a
    obtain ⟨n', p', e'⟩ := h'.slab a
    exact ⟨n', p', by rw [e', e]⟩
  cache := fun c => by
    obtain ⟨f, e⟩ := h.cache c
    obtain ⟨f', e'⟩ := h'.cache c
    exact ⟨f', by rw [e', e]⟩

/-- A change of one descriptor's links. -/
theorem sameObjects_modSlab (z : SlabAllocator) (a : Nat) {f : Slab → Slab}
    (hf : ∀ s, ∃ n p, f s = { s with next := n, prev := p }) : SameObjects z (z.modSlab a f) where
  chain := rfl
  slabs := rfl
  mem := rfl
  slab := fun b => by
    unfold modSlab
    dsimp only
    by_cases e : b = a
    · subst e
      rw [Function.update_self]
      exact hf (z.slab b)
    · exact ⟨(z.slab b).next, (z.slab b).prev, by rw [Function.update_of_ne e]⟩
  cache := fun c => ⟨(z.cache c).head, rfl⟩

theorem sameObjects_setHead (z : SlabAllocator) (c : Nat) (l : SlabList) (a : Nat) :
    SameObjects z (z.setHead c l a) where
  chain := rfl
  slabs := rfl
  mem := rfl
  slab := fun b => ⟨(z.slab b).next, (z.slab b).prev, rfl⟩
  cache := fun d => by
    unfold setHead modCache
    dsimp only
    by_cases e : d = c
    · subst e
      exact ⟨Function.update (z.cache d).head l a, by rw [Function.update_self]⟩
    · exact ⟨(z.cache d).head, by rw [Function.update_of_ne e]⟩

/-! ## Links and heads after a move -/

@[simp] theorem slabNext_modSlab (z : SlabAllocator) (a b : Nat) (f : Slab → Slab) :
    slabNext (z.modSlab a f) b = if b = a then (f (z.slab a)).next else slabNext z b := by
  unfold slabNext modSlab
  dsimp only
  rw [Function.update_apply]
  split <;> rfl

@[simp] theorem slabPrev_modSlab (z : SlabAllocator) (a b : Nat) (f : Slab → Slab) :
    slabPrev (z.modSlab a f) b = if b = a then (f (z.slab a)).prev else slabPrev z b := by
  unfold slabPrev modSlab
  dsimp only
  rw [Function.update_apply]
  split <;> rfl

@[simp] theorem cache_modSlab (z : SlabAllocator) (a : Nat) (f : Slab → Slab) :
    (z.modSlab a f).cache = z.cache := rfl

@[simp] theorem slab_setHead (z : SlabAllocator) (c : Nat) (l : SlabList) (a : Nat) :
    (z.setHead c l a).slab = z.slab := rfl

@[simp] theorem slabNext_setHead (z : SlabAllocator) (c : Nat) (l : SlabList) (a : Nat) :
    slabNext (z.setHead c l a) = slabNext z := rfl

@[simp] theorem slabPrev_setHead (z : SlabAllocator) (c : Nat) (l : SlabList) (a : Nat) :
    slabPrev (z.setHead c l a) = slabPrev z := rfl

theorem head_setHead (z : SlabAllocator) (c d : Nat) (l k : SlabList) (a : Nat) :
    ((z.setHead c l a).cache d).head k = if d = c ∧ k = l then a else (z.cache d).head k := by
  unfold setHead modCache
  dsimp only
  by_cases hd : d = c
  · subst hd
    rw [Function.update_self]
    dsimp only
    rw [Function.update_apply]
    simp only [true_and]
  · rw [Function.update_of_ne hd, if_neg (fun h => hd h.1)]

/-- The first half of `move_slab`: `a` is taken off its list. -/
def unlinkSlab (z : SlabAllocator) (c : Nat) (src : SlabList) (a : Nat) : SlabAllocator :=
  let z :=
    if (z.slab a).prev ≠ 0 then
      z.modSlab (z.slab a).prev fun s => { s with next := (z.slab a).next }
    else z.setHead c src (z.slab a).next
  if (z.slab a).next ≠ 0 then
    z.modSlab (z.slab a).next fun s => { s with prev := (z.slab a).prev }
  else z

/-- The second half: `a` goes in front of the other list. -/
def pushSlab (z : SlabAllocator) (c : Nat) (dst : SlabList) (a : Nat) : SlabAllocator :=
  let z := z.modSlab a fun s => { s with next := (z.cache c).head dst, prev := 0 }
  let z :=
    if (z.cache c).head dst ≠ 0 then
      z.modSlab ((z.cache c).head dst) fun s => { s with prev := a }
    else z
  z.setHead c dst a

theorem SameObjects.setPrev_if {z₁ : SlabAllocator} (h : SameObjects z z₁) (n p : Nat) :
    SameObjects z (if n ≠ 0 then z₁.modSlab n fun s => { s with prev := p } else z₁) := by
  split
  · exact h.trans (sameObjects_modSlab _ _ (fun s => ⟨s.next, p, rfl⟩))
  · exact h

theorem sameObjects_unlinkSlab (z : SlabAllocator) (c : Nat) (src : SlabList) (a : Nat) :
    SameObjects z (z.unlinkSlab c src a) := by
  refine SameObjects.setPrev_if ?_ _ _
  split
  · exact sameObjects_modSlab _ _ (fun s => ⟨_, s.prev, rfl⟩)
  · exact sameObjects_setHead _ _ _ _

theorem sameObjects_pushSlab (z : SlabAllocator) (c : Nat) (dst : SlabList) (a : Nat) :
    SameObjects z (z.pushSlab c dst a) := by
  refine SameObjects.trans ?_ (sameObjects_setHead _ c dst a)
  exact SameObjects.setPrev_if (sameObjects_modSlab z a (fun s => ⟨_, _, rfl⟩)) _ _

theorem sameObjects_moveSlab (z : SlabAllocator) (c : Nat) (src dst : SlabList) (a : Nat) :
    SameObjects z (z.moveSlab c src dst a) :=
  (sameObjects_unlinkSlab z c src a).trans (sameObjects_pushSlab _ c dst a)

/-- What taking a slab off its list writes. -/
theorem unlinkSlab_links (c : Nat) (src : SlabList) (ha : a ≠ 0) (hp : slabPrev z a ≠ a) :
    (∀ b, b ≠ 0 → slabNext (z.unlinkSlab c src a) b =
        if b = slabPrev z a then slabNext z a else slabNext z b) ∧
      (∀ b, b ≠ 0 → slabPrev (z.unlinkSlab c src a) b =
        if b = slabNext z a then slabPrev z a else slabPrev z b) ∧
      ∀ d k, ((z.unlinkSlab c src a).cache d).head k =
        if (d = c ∧ k = src) ∧ slabPrev z a = 0 then slabNext z a else (z.cache d).head k := by
  unfold unlinkSlab
  dsimp only
  have h₁ : ∀ b, b ≠ 0 → slabNext (if (z.slab a).prev ≠ 0 then
      z.modSlab (z.slab a).prev fun s => { s with next := (z.slab a).next }
    else z.setHead c src (z.slab a).next) b =
      if b = slabPrev z a then slabNext z a else slabNext z b := by
    intro b hb
    split
    · rw [slabNext_modSlab]
      rfl
    · next hz =>
        have hbp : b ≠ slabPrev z a := fun e => hz (show slabPrev z a ≠ 0 from e ▸ hb)
        rw [slabNext_setHead, if_neg hbp]
  have h₂ : ∀ b, slabPrev (if (z.slab a).prev ≠ 0 then
      z.modSlab (z.slab a).prev fun s => { s with next := (z.slab a).next }
    else z.setHead c src (z.slab a).next) b = slabPrev z b := by
    intro b
    split
    · rw [slabPrev_modSlab]
      split
      · next e => rw [e]; rfl
      · rfl
    · rw [slabPrev_setHead]
  have h₃ : ∀ d k, ((if (z.slab a).prev ≠ 0 then
      z.modSlab (z.slab a).prev fun s => { s with next := (z.slab a).next }
    else z.setHead c src (z.slab a).next).cache d).head k =
      if (d = c ∧ k = src) ∧ slabPrev z a = 0 then slabNext z a else (z.cache d).head k := by
    intro d k
    split
    · next hz =>
        have hz' : slabPrev z a ≠ 0 := hz
        rw [cache_modSlab, if_neg (fun h => hz' h.2)]
    · next hz =>
        have hz' : slabPrev z a = 0 := not_not.mp hz
        simp only [head_setHead, hz', and_true]
        rfl
  generalize (if (z.slab a).prev ≠ 0 then
      z.modSlab (z.slab a).prev fun s => { s with next := (z.slab a).next }
    else z.setHead c src (z.slab a).next) = z₁ at h₁ h₂ h₃ ⊢
  have hna : (z₁.slab a).next = slabNext z a := (h₁ a ha).trans (if_neg hp.symm)
  have hpa : (z₁.slab a).prev = slabPrev z a := h₂ a
  rw [hna, hpa]
  refine ⟨fun b hb => ?_, fun b hb => ?_, fun d k => ?_⟩
  · rw [← h₁ b hb]
    split
    · rw [slabNext_modSlab]
      split
      · next e => rw [e]; rfl
      · rfl
    · rfl
  · rw [← h₂ b]
    split
    · rw [slabPrev_modSlab]
    · next hz =>
        have hbn : b ≠ slabNext z a := fun e => hz (e ▸ hb)
        rw [if_neg hbn]
  · rw [← h₃ d k]
    split <;> rfl

/-- What pushing a slab writes. -/
theorem pushSlab_links (hd : (z.cache c).head dst ≠ a) :
    (∀ b, b ≠ 0 → slabNext (z.pushSlab c dst a) b =
        if b = a then (z.cache c).head dst else slabNext z b) ∧
      (∀ b, b ≠ 0 → slabPrev (z.pushSlab c dst a) b =
        if b = a then 0 else if b = (z.cache c).head dst then a else slabPrev z b) ∧
      ∀ d k, ((z.pushSlab c dst a).cache d).head k =
        if d = c ∧ k = dst then a else (z.cache d).head k := by
  unfold pushSlab
  dsimp only
  rw [cache_modSlab]
  refine ⟨fun b hb => ?_, fun b hb => ?_, fun d k => ?_⟩
  · rw [slabNext_setHead]
    split
    · rw [slabNext_modSlab]
      split
      · next e =>
          subst e
          rw [if_neg hd]
          show slabNext _ _ = _
          rw [slabNext_modSlab, if_neg hd]
      · rw [slabNext_modSlab]
    · rw [slabNext_modSlab]
  · rw [slabPrev_setHead]
    split
    · rw [slabPrev_modSlab]
      split
      · next e =>
          have hba : b ≠ a := fun h => hd (e ▸ h)
          rw [if_neg hba]
      · rw [slabPrev_modSlab]
    · next hz =>
        have hbd : b ≠ (z.cache c).head dst := fun e => hz (e ▸ hb)
        rw [slabPrev_modSlab, if_neg hbd]
  · rw [head_setHead]
    split
    · rfl
    · split <;> rfl

/-! ## The lists -/

/-- Heads and links spell out the lists `L`, and no slab is on two of them. -/
structure Lists (z : SlabAllocator) (cs : List Nat) (L : Nat → SlabList → List Nat) : Prop where
  list : ∀ c ∈ cs, ∀ l, Dll 0 (slabNext z) (slabPrev z) 0 ((z.cache c).head l) (L c l)
  nodup : ∀ c ∈ cs, ∀ l, (L c l).Nodup
  unique : ∀ c ∈ cs, ∀ d ∈ cs, ∀ l k a, a ∈ L c l → a ∈ L d k → c = d ∧ l = k

/-- The lists with one of them replaced. -/
def setList (L : Nat → SlabList → List Nat) (c : Nat) (l : SlabList) (as : List Nat) :
    Nat → SlabList → List Nat :=
  fun d k => if d = c ∧ k = l then as else L d k

theorem setList_self (L : Nat → SlabList → List Nat) (c : Nat) (l : SlabList) (as : List Nat) :
    setList L c l as c l = as := if_pos ⟨rfl, rfl⟩

theorem setList_other {L : Nat → SlabList → List Nat} {c d : Nat} {l k : SlabList} {as : List Nat}
    (h : ¬ (d = c ∧ k = l)) : setList L c l as d k = L d k := if_neg h

theorem Lists.ne_zero (h : Lists z cs L) (hc : c ∈ cs) (ha : a ∈ L c l) : a ≠ 0 :=
  (h.list c hc l).ne_null a ha

/-- The lists read the heads, and the links of the slabs on them. -/
theorem Lists.congr (h : Lists z cs L) (hhead : ∀ c ∈ cs, (z'.cache c).head = (z.cache c).head)
    (hlinks : ∀ c ∈ cs, ∀ l, ∀ a ∈ L c l, slabNext z' a = slabNext z a ∧ slabPrev z' a = slabPrev z a) :
    Lists z' cs L := by
  refine ⟨fun c hc l => ?_, h.nodup, h.unique⟩
  rw [hhead c hc]
  exact (h.list c hc l).congr (hlinks c hc l)

/-- **Taking a slab off its list.** -/
theorem Lists.unlink (h : Lists z cs L) (hc : c ∈ cs) (ha : a ∈ L c src) :
    Lists (z.unlinkSlab c src a) cs (setList L c src ((L c src).erase a)) := by
  have hlist := h.list c hc src
  have ha0 := h.ne_zero hc ha
  have hprev_ne : slabPrev z a ≠ a := hlist.prev_ne (h.nodup c hc src) ha ha0
  obtain ⟨hn, hp, hh⟩ := unlinkSlab_links c src ha0 hprev_ne
  have hsub : ∀ d k b, b ∈ setList L c src ((L c src).erase a) d k → b ∈ L d k := by
    intro d k b hb
    by_cases e : d = c ∧ k = src
    · obtain ⟨rfl, rfl⟩ := e
      rw [setList_self] at hb
      exact List.mem_of_mem_erase hb
    · rwa [setList_other e] at hb
  refine ⟨fun d hd k => ?_, fun d hd k => ?_, fun d hd e he k k' b hb hb' => ?_⟩
  · by_cases e : d = c ∧ k = src
    · obtain ⟨rfl, rfl⟩ := e
      have hne : ∀ b ∈ L d k, b ≠ 0 := fun b hb => h.ne_zero hd hb
      have hl := hlist.unlink_agree (h.nodup d hd k) ha
        (fun b hb => ⟨hn b (hne b (List.mem_of_mem_erase hb)),
          hp b (hne b (List.mem_of_mem_erase hb))⟩)
      rw [setList_self, hh d k]
      have hiff : a = (z.cache d).head k ↔ slabPrev z a = 0 := by
        rcases hlist.prev_mem ha with ⟨e, hz⟩ | hm
        · exact ⟨fun _ => hz, fun _ => e⟩
        · refine ⟨fun e => ?_, fun hz => absurd hz (hne _ hm)⟩
          obtain ⟨t, ht⟩ := hlist.exists_cons (e ▸ ha0)
          have hl' := hlist
          rw [ht] at hl'
          rw [e]
          exact hl'.2.2.1
      by_cases hz : slabPrev z a = 0
      · rw [if_pos ⟨⟨rfl, rfl⟩, hz⟩]
        rwa [if_pos (hiff.mpr hz)] at hl
      · rw [if_neg (fun h => hz h.2)]
        rwa [if_neg (fun e => hz (hiff.mp e))] at hl
    · -- another list: none of its nodes is next to `a`
      rw [setList_other e, hh d k, if_neg (fun h => e h.1)]
      refine (h.list d hd k).congr (fun b hb => ?_)
      have hb0 := h.ne_zero hd hb
      have hbp : b ≠ slabPrev z a := by
        intro hbp
        have hm := (hlist.prev_mem ha).resolve_left (fun hz => hb0 (hbp.trans hz.2))
        exact e (h.unique d hd c hc k src b hb (hbp ▸ hm))
      have hbn : b ≠ slabNext z a := by
        intro hbn
        have hm := (hlist.next_mem ha).resolve_left (fun hz => hb0 (hbn.trans hz))
        exact e (h.unique d hd c hc k src b hb (hbn ▸ hm))
      rw [hn b hb0, hp b hb0, if_neg hbp, if_neg hbn]
      exact ⟨rfl, rfl⟩
  · by_cases e : d = c ∧ k = src
    · obtain ⟨rfl, rfl⟩ := e
      rw [setList_self]
      exact (h.nodup d hd k).erase a
    · rw [setList_other e]
      exact h.nodup d hd k
  · exact h.unique d hd e he k k' b (hsub d k b hb) (hsub e k' b hb')

/-- **Putting a slab in front of a list** it is not on, nor on any other. -/
theorem Lists.push (h : Lists z cs L) (dst : SlabList) (hc : c ∈ cs) (ha : a ≠ 0)
    (hnew : ∀ d ∈ cs, ∀ k, a ∉ L d k) :
    Lists (z.pushSlab c dst a) cs (setList L c dst (a :: L c dst)) := by
  have hlist := h.list c hc dst
  have hd : (z.cache c).head dst ≠ a := by
    intro e
    obtain ⟨t, ht⟩ := hlist.exists_cons (e ▸ ha)
    exact hnew c hc dst (by rw [ht, e]; exact List.mem_cons_self)
  obtain ⟨hn, hp, hh⟩ := pushSlab_links hd
  have hmem : ∀ d k b, b ∈ setList L c dst (a :: L c dst) d k →
      (b = a ∧ d = c ∧ k = dst) ∨ b ∈ L d k := by
    intro d k b hb
    by_cases e : d = c ∧ k = dst
    · obtain ⟨rfl, rfl⟩ := e
      rw [setList_self] at hb
      exact (List.mem_cons.mp hb).imp (fun h => ⟨h, rfl, rfl⟩) id
    · rw [setList_other e] at hb
      exact Or.inr hb
  refine ⟨fun d hd' k => ?_, fun d hd' k => ?_, fun d hd' e he k k' b hb hb' => ?_⟩
  · by_cases e : d = c ∧ k = dst
    · obtain ⟨rfl, rfl⟩ := e
      rw [setList_self, hh d k, if_pos ⟨rfl, rfl⟩]
      refine hlist.push (h.nodup d hd' k) ha ?_ ?_ ?_ (fun b hb => ?_)
      · rw [hn a ha, if_pos rfl]
      · rw [hp a ha, if_pos rfl]
      · intro hz
        rw [hp _ hz, if_neg hd, if_pos rfl]
      · have hb0 := h.ne_zero hd' hb
        have hba : b ≠ a := fun e => hnew d hd' k (e ▸ hb)
        rw [hn b hb0, hp b hb0, if_neg hba, if_neg hba]
        exact ⟨rfl, fun hbh => if_neg hbh⟩
    · rw [setList_other e, hh d k, if_neg e]
      refine (h.list d hd' k).congr (fun b hb => ?_)
      have hb0 := h.ne_zero hd' hb
      have hba : b ≠ a := fun e => hnew d hd' k (e ▸ hb)
      have hbh : b ≠ (z.cache c).head dst := by
        intro hbh
        obtain ⟨t, ht⟩ := hlist.exists_cons (hbh ▸ hb0)
        exact e (h.unique d hd' c hc k dst b hb (by rw [ht, hbh]; exact List.mem_cons_self))
      rw [hn b hb0, hp b hb0, if_neg hba, if_neg hba, if_neg hbh]
      exact ⟨rfl, rfl⟩
  · by_cases e : d = c ∧ k = dst
    · obtain ⟨rfl, rfl⟩ := e
      rw [setList_self]
      exact List.nodup_cons.mpr ⟨hnew d hd' k, h.nodup d hd' k⟩
    · rw [setList_other e]
      exact h.nodup d hd' k
  · rcases hmem d k b hb with ⟨rfl, rfl, rfl⟩ | hb₁
    · rcases hmem e k' b hb' with ⟨_, rfl, rfl⟩ | hb₂
      · exact ⟨rfl, rfl⟩
      · exact absurd hb₂ (hnew e he k')
    · rcases hmem e k' b hb' with ⟨rfl, rfl, rfl⟩ | hb₂
      · exact absurd hb₁ (hnew d hd' k)
      · exact h.unique d hd' e he k k' b hb₁ hb₂

/-- The lists after a move. -/
def movedLists (L : Nat → SlabList → List Nat) (c : Nat) (src dst : SlabList) (a : Nat) :
    Nat → SlabList → List Nat :=
  setList (setList L c src ((L c src).erase a)) c dst (a :: L c dst)

theorem mem_movedLists (h : Lists z cs L) (hc : c ∈ cs) (ha : a ∈ L c src) (hsd : src ≠ dst)
    {d : Nat} (hd : d ∈ cs) {k : SlabList} {b : Nat} :
    b ∈ movedLists L c src dst a d k ↔ (b = a ∧ d = c ∧ k = dst) ∨ (b ≠ a ∧ b ∈ L d k) := by
  have hout : ∀ d ∈ cs, ∀ k, a ∈ L d k → d = c ∧ k = src :=
    fun d hd k hm => h.unique d hd c hc k src a hm ha
  unfold movedLists setList
  by_cases e : d = c ∧ k = dst
  · obtain ⟨rfl, rfl⟩ := e
    rw [if_pos ⟨rfl, rfl⟩, List.mem_cons]
    constructor
    · rintro (rfl | hb)
      · exact Or.inl ⟨rfl, rfl, rfl⟩
      · exact Or.inr ⟨fun e => hsd (hout d hd k (e ▸ hb)).2.symm, hb⟩
    · rintro (⟨rfl, _⟩ | ⟨_, hb⟩)
      · exact Or.inl rfl
      · exact Or.inr hb
  · rw [if_neg e]
    by_cases e' : d = c ∧ k = src
    · obtain ⟨rfl, rfl⟩ := e'
      rw [if_pos ⟨rfl, rfl⟩, (h.nodup d hd k).mem_erase_iff]
      exact ⟨Or.inr, fun hb => hb.resolve_left (fun h => e h.2)⟩
    · rw [if_neg e']
      constructor
      · intro hb
        exact Or.inr ⟨fun eq => e' (hout d hd k (eq ▸ hb)), hb⟩
      · rintro (⟨_, h⟩ | ⟨_, hb⟩)
        · exact absurd h e
        · exact hb

/-- **`move_slab`.** -/
theorem Lists.move (h : Lists z cs L) (hc : c ∈ cs) (ha : a ∈ L c src) (hsd : src ≠ dst) :
    Lists (z.moveSlab c src dst a) cs (movedLists L c src dst a) := by
  have hu := h.unlink hc ha
  have hnew : ∀ d ∈ cs, ∀ k, a ∉ setList L c src ((L c src).erase a) d k := by
    intro d hd k hm
    by_cases e : d = c ∧ k = src
    · obtain ⟨rfl, rfl⟩ := e
      rw [setList_self, (h.nodup d hd k).mem_erase_iff] at hm
      exact hm.1 rfl
    · rw [setList_other e] at hm
      exact e (h.unique d hd c hc k src a hm ha)
  have hp := hu.push dst hc (h.ne_zero hc ha) hnew
  have hdst : setList L c src ((L c src).erase a) c dst = L c dst :=
    setList_other (fun h => hsd h.2.symm)
  rw [hdst] at hp
  exact hp

end SlabAllocator

end KmOS
