/-
# `KmOS.Slab.Heap` — slab cache conservation

`SlabInv` puts lists and objects together: every slab is on one list of its
cache, and which one agrees with its free and live objects (`Placed`).  Every
call a client may make returns and keeps it (`SlabInv.step`).
-/
import KmOS.Lib.Chain
import KmOS.Lib.Run
import KmOS.Slab.Frame

namespace KmOS

namespace SlabAllocator

variable {z z' : SlabAllocator} {cs : List Nat} {live : List (Nat × Nat)} {c a o : Nat}
  {fl : Nat → List Nat} {L : Nat → SlabList → List Nat} {src dst : SlabList}

/-- What a slab on a list has: on the full list no free object, on the partial
list some, on the empty list no live object. -/
def Placed : SlabList → List Nat → List Nat → Prop
  | .slabsFull, fl, _ => fl = []
  | .slabsPartial, fl, _ => fl ≠ []
  | .slabsEmpty, _, lv => lv = []

/-- The caches on the chain, their lists and their objects. -/
structure Core (z : SlabAllocator) (cs : List Nat) (live : List (Nat × Nat))
    (L : Nat → SlabList → List Nat) (fl : Nat → List Nat) : Prop where
  chain : Sll 0 (fun c => (z.cache c).next) z.cacheChain cs
  nodup : cs.Nodup
  small : ∀ c ∈ cs, c < wordSize
  lists : Lists z cs L
  onList : ∀ c ∈ cs, ∀ a, (c, a) ∈ z.slabs ↔ ∃ l, a ∈ L c l
  objects : Objects z cs live fl

/-- **The invariant of the slab allocator.** -/
structure SlabInv (z : SlabAllocator) (cs : List Nat) (live : List (Nat × Nat))
    (L : Nat → SlabList → List Nat) (fl : Nat → List Nat) : Prop extends Core z cs live L fl where
  placed : ∀ c ∈ cs, ∀ l, ∀ a ∈ L c l, Placed l (fl a) (liveOf z live c a)

/-! ## Moving a slab -/

theorem SameObjects.chain_eq (hs : SameObjects z z')
    (h : Sll 0 (fun c => (z.cache c).next) z.cacheChain cs) :
    Sll 0 (fun c => (z'.cache c).next) z'.cacheChain cs := by
  rw [hs.chain]
  refine h.congr (fun d _ => ?_)
  obtain ⟨f, e⟩ := hs.cache d
  rw [e]

/-- The invariant, but for the list `a` is on. -/
structure SlabInvBut (z : SlabAllocator) (cs : List Nat) (live : List (Nat × Nat))
    (L : Nat → SlabList → List Nat) (fl : Nat → List Nat) (a : Nat) : Prop extends
    Core z cs live L fl where
  placed : ∀ d ∈ cs, ∀ l, ∀ b ∈ L d l, b ≠ a → Placed l (fl b) (liveOf z live d b)

theorem SlabInv.but (h : SlabInv z cs live L fl) (a : Nat) : SlabInvBut z cs live L fl a :=
  ⟨h.toCore, fun d hd l b hb _ => h.placed d hd l b hb⟩

/-- **A slab stays on the list it is on.** -/
theorem SlabInvBut.stay (h : SlabInvBut z cs live L fl a) (hc : c ∈ cs) (ha : a ∈ L c src)
    (hpl : Placed src (fl a) (liveOf z live c a)) : SlabInv z cs live L fl := by
  refine ⟨h.toCore, fun d hd l b hb => ?_⟩
  by_cases e : b = a
  · subst e
    obtain ⟨rfl, rfl⟩ := h.lists.unique d hd c hc l src b hb ha
    exact hpl
  · exact h.placed d hd l b hb e

/-- **A slab moves to the list it belongs on.** -/
theorem SlabInvBut.move (h : SlabInvBut z cs live L fl a) (hc : c ∈ cs) (ha : a ∈ L c src)
    (hsd : src ≠ dst) (hdst : Placed dst (fl a) (liveOf z live c a)) :
    SlabInv (z.moveSlab c src dst a) cs live (movedLists L c src dst a) fl := by
  have hs := sameObjects_moveSlab z c src dst a
  refine ⟨⟨hs.chain_eq h.chain, h.nodup, h.small, h.lists.move hc ha hsd, fun d hd b => ?_,
    h.objects.same hs⟩, fun d hd l b hb => ?_⟩
  · rw [hs.slabs, h.onList d hd b]
    constructor
    · rintro ⟨l, hl⟩
      by_cases e : b = a
      · subst e
        have hdc := (h.lists.unique d hd c hc l src b hl ha).1
        exact ⟨dst, (mem_movedLists h.lists hc ha hsd hd).mpr (Or.inl ⟨rfl, hdc, rfl⟩)⟩
      · exact ⟨l, (mem_movedLists h.lists hc ha hsd hd).mpr (Or.inr ⟨e, hl⟩)⟩
    · rintro ⟨l, hl⟩
      rcases (mem_movedLists h.lists hc ha hsd hd).mp hl with ⟨rfl, rfl, _⟩ | ⟨_, hl⟩
      · exact ⟨src, ha⟩
      · exact ⟨l, hl⟩
  · rw [liveOf_congr (hs.body b)]
    rcases (mem_movedLists h.lists hc ha hsd hd).mp hb with ⟨rfl, rfl, rfl⟩ | ⟨hne, hb⟩
    · exact hdst
    · exact h.placed d hd l b hb hne

/-! ## `cache_alloc` -/

theorem SlabOk.fl_ne_nil {t : List Nat} (h : SlabOk z live c a t) (hc : CacheOk (z.cache c))
    (hlive : liveOf z live c a = []) : t ≠ [] := by
  rintro rfl
  have hlen := h.slots.length_eq
  have hsome := hc.some
  rw [hlive, List.append_nil, List.length_nil, length_slots] at hlen
  omega

/-- The branch of `cache_alloc` that makes a slab. -/
theorem pickSlab_create (hp : (z.cache c).head .slabsPartial = 0)
    (he : (z.cache c).head .slabsEmpty = 0) {b : SlabMem} (hb : b.slab ≠ 0) :
    z.pickSlab c (some b) = (z.addSlab c b, b.slab) := by
  unfold pickSlab
  rw [hp, he]
  dsimp only
  rw [if_neg (not_not.mpr rfl), if_neg (not_not.mpr rfl)]
  have hsnd : (z.slabCreate c (some b)).2 = b.slab := rfl
  have hprev : ((z.slabCreate c (some b)).1.slab b.slab).prev = 0 :=
    congrArg Slab.prev (slab_afterCreate_self z c b)
  rw [hsnd, if_neg hb]
  unfold addSlab pushSlab
  dsimp only
  have hmod : ∀ n, (z.slabCreate c (some b)).1.modSlab b.slab (fun s => { s with next := n }) =
      (z.slabCreate c (some b)).1.modSlab b.slab (fun s => { s with next := n, prev := 0 }) := by
    intro n
    unfold modSlab
    dsimp only
    rw [hprev]
  rw [hmod]
  rfl

/-- **A new slab** goes on the partial list. -/
theorem SlabInv.create (h : SlabInv z cs live L fl) (hc : c ∈ cs) {b : SlabMem}
    (hb : SlabHeap.SlabMemOk z c (some b)) :
    SlabInv (z.addSlab c b) cs live
      (setList L c .slabsPartial (b.slab :: L c .slabsPartial))
      (Function.update fl b.slab (slots b.mem (z.cache c).objSize (z.cache c).numObjsPerSlab).reverse) ∧
    ∀ d ∈ cs, Sharp z live L d →
      SharpBut (z.addSlab c b) live (setList L c .slabsPartial (b.slab :: L c .slabsPartial)) d
        b.slab := by
  have hs := sameObjects_addSlab z c b
  have hobj := h.objects.create hc hb
  obtain ⟨hb0, hnew, _, _, _⟩ := hb
  have hfresh : ∀ d ∈ cs, ∀ k, b.slab ∉ L d k := fun d hd k hk =>
    hnew (List.mem_map.mpr ⟨(d, b.slab), (h.onList d hd b.slab).mpr ⟨k, hk⟩, rfl⟩)
  have hcreate : Lists (z.slabCreate c (some b)).1 cs L := by
    refine h.lists.congr (fun d _ => ?_) (fun d hd k x hx => ?_)
    · unfold slabCreate
      dsimp only
      rw [cache_modCache]
      split
      · next e => rw [e]
      · rfl
    · have hne : x ≠ b.slab := fun e => hfresh d hd k (e ▸ hx)
      have hx' : (z.slabCreate c (some b)).1.slab x = z.slab x := slab_afterCreate_of_ne z c hne
      unfold slabNext slabPrev
      rw [hx']
      exact ⟨rfl, rfl⟩
  have hmem : ∀ d ∈ cs, ∀ k x, x ∈ setList L c .slabsPartial (b.slab :: L c .slabsPartial) d k ↔
      (x = b.slab ∧ d = c ∧ k = .slabsPartial) ∨ x ∈ L d k := by
    intro d hd k x
    by_cases e : d = c ∧ k = .slabsPartial
    · obtain ⟨rfl, rfl⟩ := e
      rw [setList_self, List.mem_cons]
      simp
    · rw [setList_other e]
      exact ⟨Or.inr, fun hx => hx.resolve_left (fun hx => e hx.2)⟩
  have hlive : ∀ d x, x ≠ b.slab → liveOf (z.addSlab c b) live d x = liveOf z live d x := by
    intro d x hne
    have hbody : SameBody (z.slab x) ((z.afterCreate c b).slab x) := by
      rw [slab_afterCreate_of_ne z c hne]
      exact .refl (z.slab x)
    rw [liveOf_congr (hs.body x), liveOf_congr hbody]
  refine ⟨⟨⟨hs.chain_eq ?_, h.nodup, h.small, ?_, fun d hd x => ?_, hobj.same hs⟩,
    fun d hd k x hx => ?_⟩, fun d hd hsh x hx hne => ?_⟩
  · refine h.chain.congr (fun d _ => ?_)
    by_cases e : d = c
    · rw [e, cache_afterCreate_self]
    · rw [cache_afterCreate_of_ne z b e]
  · refine (hcreate.push .slabsPartial hc hb0 hfresh).congr (fun d _ => ?_) (fun _ _ _ _ _ => ⟨rfl, rfl⟩)
    unfold addSlab
    rw [cache_modCache]
    split
    · next e => rw [e]
    · rfl
  · rw [hs.slabs, slabs_afterCreate, List.mem_cons, h.onList d hd x]
    constructor
    · rintro (e | ⟨k, hk⟩)
      · exact ⟨.slabsPartial, (hmem d hd _ x).mpr
          (Or.inl ⟨congrArg Prod.snd e, congrArg Prod.fst e, rfl⟩)⟩
      · exact ⟨k, (hmem d hd k x).mpr (Or.inr hk)⟩
    · rintro ⟨k, hk⟩
      rcases (hmem d hd k x).mp hk with ⟨rfl, rfl, _⟩ | hk
      · exact Or.inl rfl
      · exact Or.inr ⟨k, hk⟩
  · rcases (hmem d hd k x).mp hx with ⟨rfl, rfl, rfl⟩ | hx
    · rw [Function.update_self]
      refine fun hnil => ?_
      have hlen := congrArg List.length hnil
      rw [List.length_reverse, length_slots, List.length_nil] at hlen
      have := (h.objects.cache d hd).some
      omega
    · have hne : x ≠ b.slab := fun e => hfresh d hd k (e ▸ hx)
      rw [Function.update_of_ne hne, hlive d x hne]
      exact h.placed d hd k x hx
  · rcases (hmem d hd _ x).mp hx with ⟨e, _⟩ | hx
    · exact absurd e hne
    · rw [hlive d x hne]
      exact hsh x hx

/-- **The slab `cache_alloc` takes from**: there is none, or it is on the
partial list. -/
theorem SlabInv.pick (h : SlabInv z cs live L fl) (hc : c ∈ cs) {buddy : Option SlabMem}
    (hb : SlabHeap.SlabMemOk z c buddy) :
    ∃ L' fl', SlabInv (z.pickSlab c buddy).1 cs live L' fl' ∧
      ((z.pickSlab c buddy).2 = 0 ∧ buddy = none ∨ (z.pickSlab c buddy).2 ∈ L' c .slabsPartial) ∧
      Frame z (z.pickSlab c buddy).1 c buddy ∧
      ∀ d ∈ cs, Sharp z live L d →
        SharpBut (z.pickSlab c buddy).1 live L' d (z.pickSlab c buddy).2 := by
  by_cases hpart : (z.cache c).head .slabsPartial = 0
  · by_cases hempty : (z.cache c).head .slabsEmpty = 0
    · cases buddy with
      | none =>
          have hnone : z.pickSlab c none = (z, 0) := by
            unfold pickSlab
            rw [hpart, hempty]
            rfl
          rw [hnone]
          exact ⟨L, fl, h, Or.inl ⟨rfl, rfl⟩, .refl z c none, fun d _ hsh => hsh.but 0⟩
      | some b =>
          rw [pickSlab_create hpart hempty hb.1]
          obtain ⟨hinv, hsharp⟩ := h.create hc hb
          refine ⟨_, _, hinv, Or.inr ?_, frame_addSlab z c b, hsharp⟩
          rw [setList_self]
          exact List.mem_cons_self
    · -- the first empty slab becomes a partial one
      have hpick : z.pickSlab c buddy = (z.moveSlab c .slabsEmpty .slabsPartial
          ((z.cache c).head .slabsEmpty), (z.cache c).head .slabsEmpty) := by
        unfold pickSlab
        dsimp only
        rw [if_neg (not_not.mpr hpart), if_pos hempty]
      rw [hpick]
      obtain ⟨t, ht⟩ := (h.lists.list c hc .slabsEmpty).exists_cons hempty
      have hmem : (z.cache c).head .slabsEmpty ∈ L c .slabsEmpty := by
        rw [ht]
        exact List.mem_cons_self
      have hslab := (h.onList c hc _).mpr ⟨_, hmem⟩
      have hlive : liveOf z live c ((z.cache c).head .slabsEmpty) = [] := h.placed c hc _ _ hmem
      refine ⟨_, fl, (h.but _).move hc hmem (by decide) ?_,
        Or.inr ((mem_movedLists h.lists hc hmem (by decide) hc).mpr (Or.inl ⟨rfl, rfl, rfl⟩)),
        (frame_moveSlab z c _ _ _).create buddy,
        fun d hd hsh => (hsh.but _).move h.lists hc hmem (by decide) hd⟩
      exact (h.objects.slab _ hslab).fl_ne_nil (h.objects.cache c hc) hlive
  · have hpick : z.pickSlab c buddy = (z, (z.cache c).head .slabsPartial) := by
      unfold pickSlab
      dsimp only
      rw [if_pos hpart]
    rw [hpick]
    obtain ⟨t, ht⟩ := (h.lists.list c hc .slabsPartial).exists_cons hpart
    exact ⟨L, fl, h, Or.inr (by rw [ht]; exact List.mem_cons_self), .refl z c buddy,
      fun d _ hsh => hsh.but _⟩

/-- Rewriting a descriptor's object fields and a cache's counters keeps chain
and lists. -/
theorem Core.oneSlab (h : Core z cs live L fl) {live' : List (Nat × Nat)} {fl' : Nat → List Nat}
    {m : Memory} {f : Slab → Slab} {g : SlabCache → SlabCache}
    (hf : (f (z.slab a)).next = (z.slab a).next ∧ (f (z.slab a)).prev = (z.slab a).prev)
    (hg : (g (z.cache c)).next = (z.cache c).next ∧ (g (z.cache c)).head = (z.cache c).head)
    (hobj : Objects (({ z with mem := m }.modSlab a f).modCache c g) cs live' fl') :
    Core (({ z with mem := m }.modSlab a f).modCache c g) cs live' L fl' := by
  have hcache : ∀ d, ((({ z with mem := m }.modSlab a f).modCache c g).cache d).next =
      (z.cache d).next ∧ ((({ z with mem := m }.modSlab a f).modCache c g).cache d).head =
      (z.cache d).head := by
    intro d
    rw [cache_modCache]
    split
    · next e =>
        rw [e]
        exact hg
    · exact ⟨rfl, rfl⟩
  refine ⟨h.chain.congr (fun d _ => (hcache d).1), h.nodup, h.small,
    h.lists.congr (fun d _ => (hcache d).2) (fun d _ k b _ => ?_), h.onList, hobj⟩
  unfold slabNext slabPrev
  rw [slab_modCache, slab_modSlab]
  split
  · next e =>
      rw [e]
      exact hf
  · exact ⟨rfl, rfl⟩

/-- **The objects of one slab change**; the other slabs stay where they belong. -/
theorem SlabInv.touch (h : SlabInv z cs live L fl) {live' : List (Nat × Nat)} {t : List Nat}
    (u : OneSlab z z' c a) (hcore : Core z' cs live' L (Function.update fl a t))
    (hlive : ∀ d b, (d, b) ∈ z.slabs → b ≠ a → liveOf z live' d b = liveOf z live d b) :
    SlabInvBut z' cs live' L (Function.update fl a t) a ∧
      ∀ d ∈ cs, SharpBut z live L d a → SharpBut z' live' L d a := by
  refine ⟨⟨hcore, fun d hd l b hb hne => ?_⟩, fun d hd hsh b hb hne => ?_⟩
  · rw [Function.update_of_ne hne, u.liveOf, hlive d b ((h.onList d hd b).mpr ⟨l, hb⟩) hne]
    exact h.placed d hd l b hb
  · rw [u.liveOf, hlive d b ((h.onList d hd b).mpr ⟨_, hb⟩) hne]
    exact hsh b hb hne

/-- **An object is handed out** from the front of a slab's list. -/
theorem SlabInv.take (h : SlabInv z cs live L fl) (ha : (c, a) ∈ z.slabs) {t : List Nat}
    (hfl : fl a = o :: t) :
    SlabInvBut (z.afterTake c a o) cs ((c, o) :: live) L (Function.update fl a t) a ∧
      (∀ d ∈ cs, SharpBut z live L d a → SharpBut (z.afterTake c a o) ((c, o) :: live) L d a) ∧
      SlabOk (z.afterTake c a o) ((c, o) :: live) c a t ∧
      liveOf (z.afterTake c a o) ((c, o) :: live) c a ≠ [] := by
  have hok : SlabOk z live c a (o :: t) := hfl ▸ h.objects.slab _ ha
  have hcore : Core (z.afterTake c a o) cs ((c, o) :: live) L (Function.update fl a t) :=
    h.toCore.oneSlab (m := z.mem) ⟨rfl, rfl⟩ ⟨rfl, rfl⟩ (h.objects.take ha hfl)
  have hu := oneSlab_afterTake z c a o
  have hcache := h.objects.cache c (h.objects.owner _ ha)
  have hin := (slot_inSlab hcache hok.order (hok.fl_slot List.mem_cons_self)).1
  obtain ⟨hbut, hsharp⟩ := h.touch hu hcore (fun d b hb hne =>
    liveOf_cons_other (fun hb' => hne (h.objects.slab_unique ha hb hin hb')))
  refine ⟨hbut, hsharp, ?_, ?_⟩
  · have hok' := hcore.objects.slab _ ha
    rwa [Function.update_self] at hok'
  · rw [hu.liveOf, liveOf_cons_self hin]
    exact List.cons_ne_nil _ _

theorem takeObj_zero (z : SlabAllocator) (c : Nat) : z.takeObj c 0 = (z, 0) := if_pos rfl

theorem SlabOk.takeObj_eq {t : List Nat} (h : SlabOk z live c a (o :: t)) :
    z.takeObj c a = (if ((z.afterTake c a o).slab a).free = 0 then
        (z.afterTake c a o).moveSlab c .slabsPartial .slabsFull a
      else z.afterTake c a o, o) := by
  unfold takeObj
  rw [if_neg h.nonnull, slabAllocObj_eq h]
  dsimp only
  rw [if_neg h.list.2.1]
  rfl

/-- **`cache_alloc` from a slab** on the partial list: it goes to the full list
with its last free object. -/
theorem SlabInv.takeObj (h : SlabInv z cs live L fl) (hc : c ∈ cs) (ha : a ∈ L c .slabsPartial) :
    ∃ o, o ≠ 0 ∧ (z.takeObj c a).2 = o ∧ ∃ L' fl',
      SlabInv (z.takeObj c a).1 cs ((c, o) :: live) L' fl' ∧ Frame z (z.takeObj c a).1 c none ∧
      ∀ d ∈ cs, SharpBut z live L d a → Sharp (z.takeObj c a).1 ((c, o) :: live) L' d := by
  have hin : (c, a) ∈ z.slabs := (h.onList c hc a).mpr ⟨_, ha⟩
  obtain ⟨o, t, hfl⟩ := List.exists_cons_of_ne_nil (h.placed c hc _ _ ha)
  have hok : SlabOk z live c a (o :: t) := hfl ▸ h.objects.slab _ hin
  obtain ⟨hbut, hsharp, hok', hsome⟩ := h.take hin hfl
  have hfr : Frame z (z.afterTake c a o) c none := (oneSlab_afterTake z c a o).frame hin
  refine ⟨o, hok.list.2.1, by rw [hok.takeObj_eq], ?_⟩
  rw [hok.takeObj_eq]
  dsimp only
  by_cases hfull : ((z.afterTake c a o).slab a).free = 0
  · rw [if_pos hfull]
    refine ⟨_, _, hbut.move hc ha (by decide) ?_, hfr.trans (frame_moveSlab _ c _ _ a),
      fun d hd hsh => (hsharp d hd hsh).move_away hbut.lists hc ha (by decide) hd (by decide)⟩
    rw [Function.update_self]
    exact List.eq_nil_of_length_eq_zero (hok'.free.symm.trans hfull)
  · rw [if_neg hfull]
    refine ⟨_, _, hbut.stay hc ha ?_, hfr, fun d hd hsh => (hsharp d hd hsh).sharp (fun hm => ?_)⟩
    · rw [Function.update_self]
      rintro rfl
      exact hfull hok'.free
    · obtain ⟨rfl, _⟩ := h.lists.unique d hd c hc _ _ a hm ha
      exact hsome

/-- **`cache_alloc`.**  It fails because it was given no memory, or hands out an
object no client has. -/
theorem SlabInv.alloc (h : SlabInv z cs live L fl) (hc : c ∈ cs) {buddy : Option SlabMem}
    (hb : SlabHeap.SlabMemOk z c buddy) :
    ∃ L' fl', SlabInv (z.cacheAlloc c buddy).1 cs
        (if (z.cacheAlloc c buddy).2 = 0 then live else (c, (z.cacheAlloc c buddy).2) :: live) L' fl' ∧
      ((z.cacheAlloc c buddy).2 = 0 → buddy = none) ∧
      Frame z (z.cacheAlloc c buddy).1 c buddy ∧
      ∀ d ∈ cs, Sharp z live L d → Sharp (z.cacheAlloc c buddy).1
        (if (z.cacheAlloc c buddy).2 = 0 then live else (c, (z.cacheAlloc c buddy).2) :: live) L' d := by
  obtain ⟨L₁, fl₁, h₁, hslab, hfr, hsharp⟩ := h.pick hc hb
  rw [cacheAlloc_eq z (h.chain.ne_null c hc)]
  rcases hslab with ⟨hzero, hnone⟩ | hmem
  · rw [hzero] at hsharp
    rw [hzero, takeObj_zero]
    exact ⟨L₁, fl₁, h₁, fun _ => hnone, hfr, fun d hd hsh =>
      (hsharp d hd hsh).sharp (fun hm => absurd rfl (h₁.lists.ne_zero hd hm))⟩
  · obtain ⟨o, ho, hres, L₂, fl₂, h₂, hfr₂, hsharp₂⟩ := h₁.takeObj hc hmem
    rw [hres, if_neg ho]
    exact ⟨L₂, fl₂, h₂, fun e => absurd e ho, hfr.trans hfr₂,
      fun d hd hsh => hsharp₂ d hd (hsharp d hd hsh)⟩

/-! ## `cache_free` -/

/-- There are fewer slabs than addresses. -/
theorem Objects.slabs_lt (h : Objects z cs live fl) (hc : c ∈ cs) : (slabsOf z c).length < turns := by
  have hsum := sum_weights_lt (w := fun _ => 1) (N := wordSize) (h.regionsOf c) (by decide)
    (fun b hb => by
      have hok := h.slab _ (mem_slabsOf.mp hb)
      have := (h.cache c hc).some
      refine ⟨?_, hok.space⟩
      rw [hok.order]
      exact Nat.le_trans this (h.cache c hc).num_le)
  rwa [List.map_const', List.sum_replicate_nat, Nat.mul_one] at hsum

theorem Core.list_lt (h : Core z cs live L fl) (hc : c ∈ cs) (l : SlabList) :
    (L c l).length < turns := by
  refine Nat.lt_of_le_of_lt ((h.lists.nodup c hc l).subperm ?_).length_le (h.objects.slabs_lt hc)
  intro a ha
  exact mem_slabsOf.mpr ((h.onList c hc a).mpr ⟨l, ha⟩)

/-- The search of a list that has the slab, and of one that has not. -/
theorem findSlabLoop_eq {l : List Nat} {p head fuel : Nat}
    (hl : Dll 0 (slabNext z) (slabPrev z) p head l) (hfuel : l.length < fuel)
    (hok : ∀ b ∈ l, (z.slab b).mem + blockSize (z.slab b).order < wordSize)
    (ha : InSlab z a o) (huniq : ∀ b ∈ l, InSlab z b o → b = a) :
    z.findSlabLoop o fuel head = some (if a ∈ l then a else 0) := by
  have hsearch : z.findSlabLoop o fuel head = some ((l.find? (InSlab z · o)).getD 0) := by
    refine hl.sll.search (f := z.findSlabLoop o) hfuel (fun _ => if_pos rfl) ?_
    intro fuel b hb hb0
    simp only [decide_eq_true_eq]
    rw [findSlabLoop, if_neg hb0, add32_eq (hok b hb)]
    rfl
  rw [hsearch, find?_getD_of_unique (p := (InSlab z · o)) (decide_eq_true ha)
    fun b hb h => huniq b hb (of_decide_eq_true h)]

/-- The search of a list of `d` for an object in the slab `a` of `c`. -/
theorem SlabInv.findLoop (h : SlabInv z cs live L fl) {d : Nat} (hd : d ∈ cs) (ha : (c, a) ∈ z.slabs)
    (hin : InSlab z a o) (l : SlabList) :
    z.findSlabLoop o turns ((z.cache d).head l) = some (if a ∈ L d l then a else 0) := by
  have hslab : ∀ b ∈ L d l, (d, b) ∈ z.slabs := fun b hb => (h.onList d hd b).mpr ⟨l, hb⟩
  exact findSlabLoop_eq (h.lists.list d hd l) (h.list_lt hd l)
    (fun b hb => (h.objects.slab _ (hslab b hb)).space) hin
    (fun b hb hb' => h.objects.slab_unique ha (hslab b hb) hin hb')

/-- **`cache_free` finds the slab** of a live object. -/
theorem SlabInv.find (h : SlabInv z cs live L fl) (hc : c ∈ cs) (ho : (c, o) ∈ live) :
    ∃ a, (c, a) ∈ z.slabs ∧ InSlab z a o ∧ z.findSlab c o = some a ∧
      (a ∈ L c .slabsFull ∨ a ∈ L c .slabsPartial) := by
  obtain ⟨a, ha, hin⟩ := h.objects.live_slab _ ho
  dsimp only at ha hin
  have hlist : a ∈ L c .slabsFull ∨ a ∈ L c .slabsPartial := by
    obtain ⟨l, hl⟩ := (h.onList c hc a).mp ha
    cases l with
    | slabsFull => exact Or.inl hl
    | slabsPartial => exact Or.inr hl
    | slabsEmpty =>
        have hnil : liveOf z live c a = [] := h.placed c hc _ a hl
        have hm : o ∈ liveOf z live c a := mem_liveOf.mpr ⟨ho, hin⟩
        rw [hnil] at hm
        exact nomatch hm
  refine ⟨a, ha, hin, ?_, hlist⟩
  have ha0 : a ≠ 0 := (h.objects.slab _ ha).nonnull
  unfold findSlab
  rw [h.findLoop hc ha hin .slabsFull]
  rcases hlist with hl | hl
  · rw [if_pos hl]
    exact if_pos ha0
  · have hnot : a ∉ L c .slabsFull := fun hf =>
      nomatch (h.lists.unique c hc c hc _ _ a hf hl).2
    rw [if_neg hnot]
    show (if (0 : Nat) ≠ 0 then some 0 else z.findSlabLoop o turns ((z.cache c).head .slabsPartial)) = _
    rw [if_neg (not_not.mpr rfl), h.findLoop hc ha hin .slabsPartial, if_pos hl]

/-- No slab of another cache holds the object. -/
theorem SlabInv.find_other (h : SlabInv z cs live L fl) {d : Nat} (hd : d ∈ cs) (hne : d ≠ c)
    (ho : (c, o) ∈ live) : z.findSlab d o = some 0 := by
  obtain ⟨a, ha, hin⟩ := h.objects.live_slab _ ho
  have hnot : ∀ l, a ∉ L d l := fun l hl =>
    hne (h.objects.owner_unique ha ((h.onList d hd a).mpr ⟨l, hl⟩))
  unfold findSlab
  rw [h.findLoop hd ha hin .slabsFull, if_neg (hnot _)]
  show (if (0 : Nat) ≠ 0 then some 0 else z.findSlabLoop o turns ((z.cache d).head .slabsPartial)) = _
  rw [if_neg (not_not.mpr rfl), h.findLoop hd ha hin .slabsPartial, if_neg (hnot _)]

/-- **An object is given back** to the front of its slab's list, and leaves the
slab with that many live objects. -/
theorem SlabInv.give (h : SlabInv z cs live L fl) (ha : (c, a) ∈ z.slabs) (ho : (c, o) ∈ live)
    (hin : InSlab z a o) :
    SlabInvBut (z.afterGive c a o) cs (live.erase (c, o)) L (Function.update fl a (o :: fl a)) a ∧
      (∀ d ∈ cs, SharpBut z live L d a → SharpBut (z.afterGive c a o) (live.erase (c, o)) L d a) ∧
      ((z.afterGive c a o).slab a).free = (fl a).length + 1 ∧
      (fl a).length + 1 + (liveOf (z.afterGive c a o) (live.erase (c, o)) c a).length =
        (z.cache c).numObjsPerSlab := by
  have hcore : Core (z.afterGive c a o) cs (live.erase (c, o)) L
      (Function.update fl a (o :: fl a)) :=
    h.toCore.oneSlab (m := putObj z.mem o (z.slab a).freelist)
      (f := fun s => { s with freelist := o, inuse := dec32 s.inuse, free := inc32 s.free })
      (g := fun s => { s with
        numActiveObjs := dec32 s.numActiveObjs, numFreeObjs := inc32 s.numFreeObjs })
      ⟨rfl, rfl⟩ ⟨rfl, rfl⟩ (h.objects.give ha ho hin)
  have hu := oneSlab_afterGive h.objects ha ho hin
  obtain ⟨hbut, hsharp⟩ := h.touch hu hcore (fun d b hb hne =>
    liveOf_erase_other (fun hb' => hne (h.objects.slab_unique ha hb hin hb')))
  have hok' : SlabOk (z.afterGive c a o) (live.erase (c, o)) c a (o :: fl a) := by
    have := hcore.objects.slab _ ha
    rwa [Function.update_self] at this
  refine ⟨hbut, hsharp, hok'.free, ?_⟩
  rw [← hok'.inuse, ← List.length_cons (a := o), ← hok'.free, hok'.total]
  exact hu.sizes.2.1

/-- A full slab has a free object again, and goes to the partial list.  It has a
live one left if it has more than one object. -/
theorem SlabInvBut.relistFull (h : SlabInvBut z cs live L fl a) (hc : c ∈ cs) (ha : a ∈ L c .slabsFull)
    (hfl : fl a ≠ []) :
    SlabInv (relist c a true z) cs live (movedLists L c .slabsFull .slabsPartial a) fl ∧
      (∀ d ∈ cs, (d = c → liveOf z live c a ≠ []) → SharpBut z live L d a →
        Sharp (relist c a true z) live (movedLists L c .slabsFull .slabsPartial a) d) ∧
      (liveOf z live c a = [] →
        ¬ Sharp (relist c a true z) live (movedLists L c .slabsFull .slabsPartial a) c) := by
  have hmove : relist c a true z = z.moveSlab c .slabsFull .slabsPartial a := if_pos rfl
  have hlive : liveOf (z.moveSlab c .slabsFull .slabsPartial a) live c a = liveOf z live c a :=
    liveOf_congr ((sameObjects_moveSlab z c _ _ a).body a)
  rw [hmove]
  refine ⟨h.move hc ha (by decide) hfl, fun d hd hsome hsh => ?_, fun hnil hsh => ?_⟩
  · refine (hsh.move h.lists hc ha (by decide) hd).sharp (fun hm => ?_)
    rcases (mem_movedLists h.lists hc ha (by decide) hd).mp hm with ⟨_, e, _⟩ | ⟨hne, _⟩
    · rw [e, hlive]
      exact hsome e
    · exact absurd rfl hne
  · refine hsh a ((mem_movedLists h.lists hc ha (by decide) hc).mpr (Or.inl ⟨rfl, rfl, rfl⟩)) ?_
    rw [hlive]
    exact hnil

/-- A slab on the partial list goes to the empty list with its last live object. -/
theorem SlabInvBut.relistPartial (h : SlabInvBut z cs live L fl a) (hc : c ∈ cs)
    (ha : a ∈ L c .slabsPartial) (hfl : fl a ≠ [])
    (hfree : (z.slab a).free = (z.cache c).numObjsPerSlab ↔ liveOf z live c a = []) :
    ∃ L', SlabInv (relist c a false z) cs live L' fl ∧
      ∀ d ∈ cs, SharpBut z live L d a → Sharp (relist c a false z) live L' d := by
  unfold relist
  rw [if_neg Bool.false_ne_true]
  by_cases hempty : (z.slab a).free = (z.cache c).numObjsPerSlab
  · rw [if_pos hempty]
    exact ⟨_, h.move hc ha (by decide) (hfree.mp hempty), fun d hd hsh =>
      hsh.move_away h.lists hc ha (by decide) hd (by decide)⟩
  · rw [if_neg hempty]
    refine ⟨L, h.stay hc ha hfl, fun d hd hsh => hsh.sharp (fun hm => ?_)⟩
    obtain ⟨rfl, _⟩ := h.lists.unique d hd c hc _ _ a hm ha
    exact fun hnil => hempty (hfree.mpr hnil)

theorem frame_relist (c a : Nat) (wasFull : Bool) (z : SlabAllocator) :
    Frame z (relist c a wasFull z) c none := by
  unfold relist
  split
  · exact frame_moveSlab z c _ _ a
  · split
    · exact frame_moveSlab z c _ _ a
    · exact .refl z c none

/-- **`cache_free`** of a live object.  It goes to the front of its slab's list.
With one object in a slab the slab is then on the partial list without a live
object. -/
theorem SlabInv.free (h : SlabInv z cs live L fl) (ho : (c, o) ∈ live) :
    ∃ z' L' fl' a, z.cacheFree c o = some z' ∧ SlabInv z' cs (live.erase (c, o)) L' fl' ∧
      ((c, a) ∈ z.slabs ∧ InSlab z a o ∧ SameObjects (z.afterGive c a o) z') ∧
      Frame z z' c none ∧
      (∀ d ∈ cs, (d = c → (z.cache c).numObjsPerSlab ≠ 1) → Sharp z live L d →
        Sharp z' (live.erase (c, o)) L' d) ∧
      ((z.cache c).numObjsPerSlab = 1 → ¬ Sharp z' (live.erase (c, o)) L' c) := by
  obtain ⟨b, hb, _⟩ := h.objects.live_slab _ ho
  have hc : c ∈ cs := h.objects.owner _ hb
  obtain ⟨a, ha, hin, hfind, hlist⟩ := h.find hc ho
  have hok := h.objects.slab _ ha
  dsimp only at hok
  have ho0 : o ≠ 0 := by
    have := hok.base
    unfold InSlab at hin
    omega
  have hfree : z.cacheFree c o = some (z.giveObj c a o) := by
    rw [cacheFree_eq, if_neg (not_or.mpr ⟨h.chain.ne_null c hc, ho0⟩), hfind, Option.map_some,
      if_neg hok.nonnull]
  obtain ⟨hbut, hsharp, hnum, hlen⟩ := h.give ha ho hin
  have hu := oneSlab_afterGive h.objects ha ho hin
  have hfl : Function.update fl a (o :: fl a) a ≠ [] := by
    rw [Function.update_self]
    exact List.cons_ne_nil _ _
  have hsame : SameObjects (z.afterGive c a o) (z.giveObj c a o) := sameObjects_relist c a _ _
  have hfr : Frame z (z.giveObj c a o) c none := (hu.frame ha).trans (frame_relist c a _ _)
  have hzero : (z.slab a).free = (fl a).length := hok.free
  by_cases hfull : (z.slab a).free = 0
  · have hgive : z.giveObj c a o = relist c a true (z.afterGive c a o) :=
      congrArg (fun w => relist c a w (z.afterGive c a o)) (decide_eq_true hfull)
    have hl : a ∈ L c .slabsFull :=
      hlist.resolve_right fun hl => h.placed c hc _ a hl (List.eq_nil_of_length_eq_zero (hzero ▸ hfull))
    obtain ⟨hinv, hkeep, hbreak⟩ := hbut.relistFull hc hl hfl
    rw [← hgive] at hinv hkeep hbreak
    refine ⟨_, _, _, a, hfree, hinv, ⟨ha, hin, hsame⟩, hfr,
      fun d hd hne hsh => hkeep d hd (fun e hnil => ?_) (hsharp d hd (hsh.but a)), fun hone =>
        hbreak (List.eq_nil_of_length_eq_zero (by omega))⟩
    rw [hnil, List.length_nil] at hlen
    exact hne e (by omega)
  · have hgive : z.giveObj c a o = relist c a false (z.afterGive c a o) :=
      congrArg (fun w => relist c a w (z.afterGive c a o)) (decide_eq_false hfull)
    have hl : a ∈ L c .slabsPartial :=
      hlist.resolve_left fun hl => hfull (hzero.trans (by rw [h.placed c hc _ a hl]; rfl))
    have hcount : ((z.afterGive c a o).cache c).numObjsPerSlab = (z.cache c).numObjsPerSlab :=
      hu.sizes.2.1
    have hiff : ((z.afterGive c a o).slab a).free = ((z.afterGive c a o).cache c).numObjsPerSlab ↔
        liveOf (z.afterGive c a o) (live.erase (c, o)) c a = [] := by
      rw [← List.length_eq_zero_iff]
      omega
    obtain ⟨L', hinv, hkeep⟩ := hbut.relistPartial hc hl hfl hiff
    rw [← hgive] at hinv hkeep
    -- with a free and a live object there are two
    have hone : (z.cache c).numObjsPerSlab ≠ 1 := by omega
    exact ⟨_, L', _, a, hfree, hinv, ⟨ha, hin, hsame⟩, hfr,
      fun d hd _ hsh => hkeep d hd (hsharp d hd (hsh.but a)), fun e => absurd e hone⟩

/-! ## `cache_reap` -/

/-- One turn of the inner loop: the first empty slab goes off its list and is
destroyed. -/
theorem reapLoop_succ (hl : Lists z cs L) (hc : c ∈ cs) (fuel : Nat)
    (hhead : (z.cache c).head .slabsEmpty ≠ 0) (hnum : 1 < (z.cache c).numSlabs) :
    reapLoop c (fuel + 1) z = reapLoop c fuel ((z.unlinkSlab c .slabsEmpty
      ((z.cache c).head .slabsEmpty)).slabDestroy c ((z.cache c).head .slabsEmpty)) := by
  obtain ⟨t, ht⟩ := (hl.list c hc .slabsEmpty).exists_cons hhead
  have hfirst := hl.list c hc .slabsEmpty
  rw [ht] at hfirst
  have hprev : (z.slab ((z.cache c).head .slabsEmpty)).prev = 0 := hfirst.2.2.1
  have hnext : ((z.setHead c .slabsEmpty (z.slab ((z.cache c).head .slabsEmpty)).next).cache c).head
      .slabsEmpty = (z.slab ((z.cache c).head .slabsEmpty)).next := by
    rw [head_setHead, if_pos ⟨rfl, rfl⟩]
  rw [reapLoop]
  dsimp only
  rw [if_pos ⟨hhead, hnum⟩, hnext]
  unfold unlinkSlab
  dsimp only
  rw [hprev, if_neg (not_not.mpr rfl), slab_setHead, hprev]

theorem SlabInv.destroy (h : SlabInv z cs live L fl) (hc : c ∈ cs) (ha : a ∈ L c .slabsEmpty) :
    SlabInv ((z.unlinkSlab c .slabsEmpty a).slabDestroy c a) cs live
        (setList L c .slabsEmpty ((L c .slabsEmpty).erase a)) fl ∧
      ∀ d, Sharp z live L d → Sharp ((z.unlinkSlab c .slabsEmpty a).slabDestroy c a) live
        (setList L c .slabsEmpty ((L c .slabsEmpty).erase a)) d := by
  have hs := sameObjects_unlinkSlab z c .slabsEmpty a
  have hmem : (c, a) ∈ (z.unlinkSlab c .slabsEmpty a).slabs := by
    rw [hs.slabs]
    exact (h.onList c hc a).mpr ⟨_, ha⟩
  have hobj := h.objects.same hs
  have hlists := h.lists.unlink hc ha
  have hchain := hs.chain_eq h.chain
  have hlive : liveOf (z.unlinkSlab c .slabsEmpty a) live c a = [] := by
    rw [liveOf_congr (hs.body a)]
    exact h.placed c hc _ a ha
  have hdestroy := hobj.destroy hmem hlive
  rw [slabDestroy_eq (hobj.slab _ hmem)] at hdestroy ⊢
  have hcache : ∀ d, (Function.update (z.unlinkSlab c .slabsEmpty a).cache c
      { (z.unlinkSlab c .slabsEmpty a).cache c with
        numFreeObjs := sub32 ((z.unlinkSlab c .slabsEmpty a).cache c).numFreeObjs
          ((z.unlinkSlab c .slabsEmpty a).slab a).free
        numSlabs := dec32 ((z.unlinkSlab c .slabsEmpty a).cache c).numSlabs } d).next =
        ((z.unlinkSlab c .slabsEmpty a).cache d).next ∧
      (Function.update (z.unlinkSlab c .slabsEmpty a).cache c
      { (z.unlinkSlab c .slabsEmpty a).cache c with
        numFreeObjs := sub32 ((z.unlinkSlab c .slabsEmpty a).cache c).numFreeObjs
          ((z.unlinkSlab c .slabsEmpty a).slab a).free
        numSlabs := dec32 ((z.unlinkSlab c .slabsEmpty a).cache c).numSlabs } d).head =
        ((z.unlinkSlab c .slabsEmpty a).cache d).head := by
    intro d
    by_cases e : d = c
    · subst e
      rw [Function.update_self]
      exact ⟨rfl, rfl⟩
    · rw [Function.update_of_ne e]
      exact ⟨rfl, rfl⟩
  -- the slabs on lists now are those that were, without `a`
  have hlist : ∀ d ∈ cs, ∀ k b, b ∈ setList L c .slabsEmpty ((L c .slabsEmpty).erase a) d k ↔
      b ≠ a ∧ b ∈ L d k := by
    intro d hd k b
    by_cases e : d = c ∧ k = .slabsEmpty
    · obtain ⟨rfl, rfl⟩ := e
      rw [setList_self]
      exact (h.lists.nodup d hd _).mem_erase_iff
    · rw [setList_other e]
      exact ⟨fun hb => ⟨fun hba => e (h.lists.unique d hd c hc k _ a (hba ▸ hb) ha), hb⟩, And.right⟩
  have hlv : ∀ d b, liveOf (z.unlinkSlab c .slabsEmpty a) live d b = liveOf z live d b :=
    fun d b => liveOf_congr (hs.body b)
  refine ⟨⟨⟨hchain.congr (fun d _ => (hcache d).1), h.nodup, h.small,
    hlists.congr (fun d _ => (hcache d).2) (fun _ _ _ _ _ => ⟨rfl, rfl⟩), fun d hd b => ?_, hdestroy⟩,
    fun d hd k b hb => ?_⟩, fun d hsh => hsh.mono (fun b hb => ⟨?_, hlv d b⟩)⟩
  · have hnd : (z.unlinkSlab c .slabsEmpty a).slabs.Nodup := List.Nodup.of_map _ hobj.nodup
    dsimp only
    rw [hnd.mem_erase_iff, hs.slabs, h.onList d hd b]
    constructor
    · rintro ⟨hne, k, hk⟩
      refine ⟨k, (hlist d hd k b).mpr ⟨fun e => hne ?_, hk⟩⟩
      subst e
      rw [(h.lists.unique d hd c hc k _ b hk ha).1]
    · rintro ⟨k, hk⟩
      obtain ⟨hne, hk⟩ := (hlist d hd k b).mp hk
      exact ⟨fun e => hne (congrArg Prod.snd e), k, hk⟩
  · have hb' := ((hlist d hd k b).mp hb).2
    have := h.placed d hd k b hb'
    rw [← hlv] at this
    exact this
  · rwa [setList_other (by simp)] at hb

/-- `cache_reap` has nothing left to do for `c`. -/
def Reaped (z : SlabAllocator) (c : Nat) : Prop :=
  (z.cache c).head .slabsEmpty = 0 ∨ (z.cache c).numSlabs ≤ 1

theorem SlabInv.reapLoop (hc : c ∈ cs) :
    ∀ {fuel : Nat} {z : SlabAllocator} {L : Nat → SlabList → List Nat}, SlabInv z cs live L fl →
      (L c .slabsEmpty).length < fuel →
      ∃ z' L', reapLoop c fuel z = some z' ∧ SlabInv z' cs live L' fl ∧ Reaped z' c ∧
        (∀ d, d ≠ c → z'.cache d = z.cache d) ∧ ∀ d, Sharp z live L d → Sharp z' live L' d := by
  intro fuel
  induction fuel with
  | zero => intro z L _ hlen; exact absurd hlen (Nat.not_lt_zero _)
  | succ fuel ih =>
      intro z L h hlen
      by_cases hhead : (z.cache c).head .slabsEmpty = 0
      · refine ⟨z, L, ?_, h, Or.inl hhead, fun _ _ => rfl, fun _ hsh => hsh⟩
        unfold SlabAllocator.reapLoop
        exact if_neg (fun hh => hh.1 hhead)
      by_cases hnum : 1 < (z.cache c).numSlabs
      · rw [reapLoop_succ h.lists hc fuel hhead hnum]
        obtain ⟨t, ht⟩ := (h.lists.list c hc .slabsEmpty).exists_cons hhead
        have hmem : (z.cache c).head .slabsEmpty ∈ L c .slabsEmpty := by
          rw [ht]
          exact List.mem_cons_self
        obtain ⟨hinv, hsharp⟩ := h.destroy hc hmem
        have hless : (setList L c .slabsEmpty ((L c .slabsEmpty).erase
            ((z.cache c).head .slabsEmpty)) c .slabsEmpty).length < fuel := by
          rw [setList_self, List.length_erase_of_mem hmem]
          have := List.length_pos_of_mem hmem
          omega
        obtain ⟨z', L', hz', hinv', hreap, hcaches, hsharp'⟩ := ih hinv hless
        refine ⟨z', L', hz', hinv', hreap, fun d hd => ?_, fun d hsh => hsharp' d (hsharp d hsh)⟩
        rw [hcaches d hd, cache_slabDestroy_of_ne _ _ hd, cache_unlinkSlab_of_ne _ _ _ hd]
      · refine ⟨z, L, ?_, h, Or.inr (Nat.le_of_not_lt hnum), fun _ _ => rfl, fun _ hsh => hsh⟩
        unfold SlabAllocator.reapLoop
        exact if_neg (fun hh => hnum hh.2)

/-- The outer loop, along the caches `rest` from `cur` on, with the caches `pre`
done. -/
theorem SlabInv.reapCaches :
    ∀ {rest : List Nat} (pre : List Nat) {fuel cur : Nat} {z : SlabAllocator} {L : Nat → SlabList → List Nat},
      cs = pre ++ rest → SlabInv z cs live L fl → Sll 0 (fun c => (z.cache c).next) cur rest →
      rest.length < fuel → (∀ c ∈ pre, Reaped z c) →
      ∃ z' L', reapCaches fuel z cur = some z' ∧ SlabInv z' cs live L' fl ∧ (∀ c ∈ cs, Reaped z' c) ∧
        ∀ d, Sharp z live L d → Sharp z' live L' d := by
  intro rest
  induction rest with
  | nil =>
      intro pre fuel cur z L hcs h hcur hfuel hpre
      cases fuel with
      | zero => exact absurd hfuel (Nat.not_lt_zero _)
      | succ fuel =>
          rw [List.append_nil] at hcs
          refine ⟨z, L, ?_, h, fun c hc => hpre c (hcs ▸ hc), fun _ hsh => hsh⟩
          unfold SlabAllocator.reapCaches
          exact if_pos hcur
  | cons c rest ih =>
      intro pre fuel cur z L hcs h hcur hfuel hpre
      cases fuel with
      | zero => exact absurd hfuel (Nat.not_lt_zero _)
      | succ fuel =>
          obtain ⟨rfl, hc0, _⟩ := hcur
          have hc : cur ∈ cs := by
            rw [hcs]
            exact List.mem_append_right pre List.mem_cons_self
          obtain ⟨z₁, L₁, hz₁, h₁, hreap, hcaches, hsharp₁⟩ :=
            SlabInv.reapLoop hc h (h.list_lt hc .slabsEmpty)
          have hchain := h₁.chain
          rw [hcs] at hchain
          have hnd := h.nodup
          rw [hcs] at hnd
          have hpre₁ : ∀ d ∈ pre ++ [cur], Reaped z₁ d := by
            intro d hd
            rcases List.mem_append.mp hd with hd | hd
            · have hne : d ≠ cur := (List.nodup_append.mp hnd).2.2 d hd cur List.mem_cons_self
              unfold Reaped
              rw [hcaches d hne]
              exact hpre d hd
            · exact List.mem_singleton.mp hd ▸ hreap
          obtain ⟨z₂, L₂, hz₂, h₂, hreap₂, hsharp₂⟩ := ih (pre ++ [cur])
            (by rw [hcs, List.append_assoc]; rfl) h₁ hchain.drop (Nat.lt_of_succ_lt_succ hfuel) hpre₁
          refine ⟨z₂, L₂, ?_, h₂, hreap₂, fun d hsh => hsharp₂ d (hsharp₁ d hsh)⟩
          rw [SlabAllocator.reapCaches, if_neg hc0, hz₁]
          exact hz₂

/-- **`cache_reap`.** -/
theorem SlabInv.reap (h : SlabInv z cs live L fl) :
    ∃ z' L', z.cacheReap = some z' ∧ SlabInv z' cs live L' fl ∧ (∀ c ∈ cs, Reaped z' c) ∧
      ∀ d, Sharp z live L d → Sharp z' live L' d :=
  SlabInv.reapCaches [] rfl h h.chain (h.chain.length_lt h.nodup h.small (by decide)) nofun

/-! ## The other calls -/

/-- **`cache_create`.** -/
theorem SlabInv.cacheCreate (h : SlabInv z cs live L fl) {size align flags : UInt32} (hc0 : c ≠ 0)
    (hcw : c < wordSize) (hc : c ∉ cs) (hsize : sizeofSlabObj ≤ roundUp size align)
    (hsome : 0 < (newCache 0 size align 0).numObjsPerSlab) :
    SlabInv (z.cacheCreate size align flags (some c)) (c :: cs) live
      (fun d l => if d = c then [] else L d l) fl := by
  unfold SlabAllocator.cacheCreate
  dsimp only
  have hold : ∀ d ∈ cs, d ≠ c := fun d hd e => hc (e ▸ hd)
  have hcache : ∀ d ∈ cs, Function.update z.cache c (newCache z.cacheChain size align flags) d =
      z.cache d := fun d hd => Function.update_of_ne (hold d hd) _ _
  have hin : ∀ d ∈ c :: cs, ∀ l a, a ∈ (if d = c then [] else L d l) ↔ d ∈ cs ∧ a ∈ L d l := by
    intro d hd l a
    rcases List.mem_cons.mp hd with rfl | hd
    · rw [if_pos rfl]
      exact ⟨nofun, fun ha => absurd ha.1 hc⟩
    · rw [if_neg (hold d hd)]
      exact ⟨fun ha => ⟨hd, ha⟩, And.right⟩
  refine ⟨⟨?_, List.nodup_cons.mpr ⟨hc, h.nodup⟩, ?_, ⟨fun d hd l => ?_, fun d hd l => ?_, ?_⟩, ?_,
    h.objects.cacheCreate hc (CacheOk.newCache hsize hsome) ⟨rfl, rfl, rfl⟩ c⟩, ?_⟩
  · refine h.chain.push hc0 ?_ (fun d hd => ?_)
    · dsimp only
      rw [Function.update_self]
      rfl
    · dsimp only
      rw [hcache d hd]
  · intro d hd
    rcases List.mem_cons.mp hd with rfl | hd
    · exact hcw
    · exact h.small d hd
  · rcases List.mem_cons.mp hd with rfl | hd
    · dsimp only
      rw [if_pos rfl, Function.update_self]
      exact rfl
    · dsimp only
      rw [if_neg (hold d hd), hcache d hd]
      exact (h.lists.list d hd l).congr (fun _ _ => ⟨rfl, rfl⟩)
  · rcases List.mem_cons.mp hd with rfl | hd
    · rw [if_pos rfl]
      exact List.nodup_nil
    · rw [if_neg (hold d hd)]
      exact h.lists.nodup d hd l
  · intro d hd e he l k a ha hb
    obtain ⟨hd', ha⟩ := (hin d hd l a).mp ha
    obtain ⟨he', hb⟩ := (hin e he k a).mp hb
    exact h.lists.unique d hd' e he' l k a ha hb
  · intro d hd a
    constructor
    · intro ha
      have hd' := h.objects.owner _ ha
      obtain ⟨l, hl⟩ := (h.onList d hd' a).mp ha
      exact ⟨l, (hin d hd l a).mpr ⟨hd', hl⟩⟩
    · rintro ⟨l, hl⟩
      obtain ⟨hd', hl⟩ := (hin d hd l a).mp hl
      exact (h.onList d hd' a).mpr ⟨l, hl⟩
  · intro d hd l a ha
    obtain ⟨hd', ha⟩ := (hin d hd l a).mp ha
    exact h.placed d hd' l a ha

/-- A client writes into an object it holds, or outside all slabs. -/
theorem SlabInv.write (h : SlabInv z cs live L fl) {addr : Nat} (byte : UInt8)
    (hx : (∃ l ∈ live, l.2 ≤ addr ∧ addr < l.2 + (z.cache l.1).objSize) ∨
      ∀ p ∈ z.slabs, addr < (z.slab p.2).mem ∨ (z.slab p.2).mem + SlabHeap.slabLen z p ≤ addr) :
    SlabInv { z with mem := z.mem.store8 addr byte } cs live L fl :=
  ⟨⟨h.chain, h.nodup, h.small, h.lists.congr (fun _ _ => rfl) (fun _ _ _ _ _ => ⟨rfl, rfl⟩), h.onList,
    h.objects.write byte hx⟩, h.placed⟩

theorem SlabInv.init (mem : Memory) : SlabInv (init mem) [] [] (fun _ _ => []) (fun _ => []) where
  chain := rfl
  nodup := List.nodup_nil
  small := nofun
  lists := ⟨nofun, nofun, nofun⟩
  onList := nofun
  objects := ⟨nofun, nofun, List.nodup_nil, List.Pairwise.nil, nofun, nofun, List.nodup_nil, nofun⟩
  placed := nofun

end SlabAllocator

namespace SlabHeap

open SlabAllocator

variable {h : SlabHeap} {L : Nat → SlabList → List Nat} {fl : Nat → List Nat}

/-- A call that gives an object back to `c`, where one object fills a slab. -/
def FreesLone (h : SlabHeap) (c : Nat) : SlabCall → Prop
  | .free d _ => d = c ∧ (h.slab.cache c).numObjsPerSlab = 1
  | _ => False

/-- **One call.**  It returns, and the invariant survives it; so does a sharp
list. -/
theorem step_inv (hi : SlabInv h.slab h.caches h.live L fl) {call : SlabCall} (hok : h.Allowed call) :
    ∃ h' L' fl', h.step call = some h' ∧ SlabInv h'.slab h'.caches h'.live L' fl' ∧
      ∀ c ∈ h'.caches, ¬ h.FreesLone c call → (c ∈ h.caches → Sharp h.slab h.live L c) →
        Sharp h'.slab h'.live L' c := by
  cases call with
  | create size align flags cache =>
      obtain ⟨hcache, hsize, hsome⟩ := hok
      cases cache with
      | none => exact ⟨_, L, fl, rfl, hi, fun c hc _ hsh => hsh hc⟩
      | some c =>
          obtain ⟨hc0, hcw, hc⟩ := hcache c rfl
          refine ⟨_, _, fl, rfl, hi.cacheCreate hc0 hcw hc hsize hsome, fun d hd _ hsh b hb => ?_⟩
          have hb' : b ∈ if d = c then [] else L d .slabsPartial := hb
          split at hb'
          · exact nomatch hb'
          · next hne => exact hsh ((List.mem_cons.mp hd).resolve_left hne) b hb'
  | alloc c buddy =>
      obtain ⟨L', fl', hi', _, _, hsharp⟩ := hi.alloc hok.1 hok.2
      exact ⟨_, L', fl', rfl, hi', fun d hd _ hsh => hsharp d hd (hsh hd)⟩
  | free c obj =>
      obtain ⟨z', L', fl', _, hz', hi', _, _, hsharp, _⟩ := hi.free hok
      refine ⟨_, L', fl', by rw [step, hz']; rfl, hi', fun d hd hlone hsh => ?_⟩
      exact hsharp d hd (fun e hone => hlone ⟨e.symm, e ▸ hone⟩) (hsh hd)
  | reap =>
      obtain ⟨z', L', hz', hi', _, hsharp⟩ := hi.reap
      refine ⟨{ h with slab := z' }, L', fl, by rw [step, hz']; rfl, hi', fun d hd _ hsh => ?_⟩
      exact hsharp d (hsh hd)
  | write addr byte =>
      exact ⟨_, L, fl, rfl, hi.write byte hok, fun c hc _ hsh => hsh hc⟩

/-- What a client can rely on.  The heads spell out lists `L`, and every slab
is on exactly one list of its cache and on none of another; its free objects `fl`
and its live ones are its slots, each once; all counters are right; what clients
hold are different objects. -/
structure Conserved (h : SlabHeap) (L : Nat → SlabList → List Nat) (fl : Nat → List Nat) : Prop where
  lists : ∀ c ∈ h.caches, ∀ l,
    Dll 0 (slabNext h.slab) (slabPrev h.slab) 0 ((h.slab.cache c).head l) (L c l) ∧ (L c l).Nodup
  oneList : ∀ c ∈ h.caches, ∀ a, (c, a) ∈ h.slab.slabs ↔ ∃! l, a ∈ L c l
  oneCache : (h.slab.slabs.map Prod.snd).Nodup
  freelist : ∀ p ∈ h.slab.slabs, Sll 0 h.slab.mem.link (h.slab.slab p.2).freelist (fl p.2)
  disjoint : ∀ p ∈ h.slab.slabs, (fl p.2 ++ liveOf h.slab h.live p.1 p.2).Nodup
  slots : ∀ p ∈ h.slab.slabs, (fl p.2 ++ liveOf h.slab h.live p.1 p.2).Perm
    (slots (h.slab.slab p.2).mem (h.slab.cache p.1).objSize (h.slab.cache p.1).numObjsPerSlab)
  free : ∀ p ∈ h.slab.slabs, (h.slab.slab p.2).free = (fl p.2).length
  inuse : ∀ p ∈ h.slab.slabs, (h.slab.slab p.2).inuse = (liveOf h.slab h.live p.1 p.2).length
  counts : ∀ c ∈ h.caches, Counts h.slab c
  live_slab : ∀ p ∈ h.live, ∃ a, (p.1, a) ∈ h.slab.slabs ∧ InSlab h.slab a p.2
  distinct : (h.live.map Prod.snd).Nodup

theorem live_distinct (hi : SlabInv h.slab h.caches h.live L fl) : (h.live.map Prod.snd).Nodup := by
  refine List.Nodup.map_on (fun p hp q hq e => ?_) hi.objects.live_nodup
  obtain ⟨a, ha, hina⟩ := hi.objects.live_slab p hp
  obtain ⟨b, hb, hinb⟩ := hi.objects.live_slab q hq
  rw [← e] at hinb
  obtain rfl := hi.objects.slab_unique ha hb hina hinb
  exact Prod.ext (hi.objects.owner_unique hb ha) e

theorem Conserved.of_inv (hi : SlabInv h.slab h.caches h.live L fl) : Conserved h L fl where
  lists := fun c hc l => ⟨hi.lists.list c hc l, hi.lists.nodup c hc l⟩
  oneList := fun c hc a => by
    rw [hi.onList c hc a]
    constructor
    · rintro ⟨l, hl⟩
      exact ⟨l, hl, fun k hk => (hi.lists.unique c hc c hc k l a hk hl).2⟩
    · rintro ⟨l, hl, _⟩
      exact ⟨l, hl⟩
  oneCache := hi.objects.nodup
  freelist := fun p hp => (hi.objects.slab p hp).list
  disjoint := fun p hp => (hi.objects.slab p hp).nodup (hi.objects.cache p.1 (hi.objects.owner p hp))
  slots := fun p hp => (hi.objects.slab p hp).slots
  free := fun p hp => (hi.objects.slab p hp).free
  inuse := fun p hp => (hi.objects.slab p hp).inuse
  counts := hi.objects.count
  live_slab := hi.objects.live_slab
  distinct := live_distinct hi

theorem slabInv_of_reaches (mem : Memory) (hr : Reaches SlabHeap.step Allowed (start mem) h) :
    ∃ L fl, SlabInv h.slab h.caches h.live L fl := by
  refine hr.invariant (I := fun h => ∃ L fl, SlabInv h.slab h.caches h.live L fl)
    ⟨_, _, SlabInv.init mem⟩ ?_
  rintro u call u' ⟨L, fl, hi⟩ hok hs
  obtain ⟨h', L', fl', hs', hi', _⟩ := step_inv hi hok
  rw [hs] at hs'
  obtain rfl := Option.some.inj hs'
  exact ⟨L', fl', hi'⟩

/-- **Slab cache conservation.**  After every sequence of calls the heap is
conserved, every call a client may make returns, and an object `cache_alloc`
hands out is not one a client still has. -/
theorem slab_cache_conservation (mem : Memory)
    (hr : Reaches SlabHeap.step Allowed (start mem) h) :
    (∃ L fl, Conserved h L fl) ∧ (∀ call, h.Allowed call → (h.step call).isSome) ∧
      ∀ c buddy, h.Allowed (.alloc c buddy) → (h.slab.cacheAlloc c buddy).2 ≠ 0 →
        (h.slab.cacheAlloc c buddy).2 ∉ h.live.map Prod.snd := by
  obtain ⟨L, fl, hi⟩ := slabInv_of_reaches mem hr
  refine ⟨⟨L, fl, .of_inv hi⟩, fun call hok => ?_, fun c buddy hok hne => ?_⟩
  · obtain ⟨h', _, _, hs', _⟩ := step_inv hi hok
    rw [hs']
    rfl
  · obtain ⟨h', L', fl', hs', hi', _⟩ := step_inv hi hok
    obtain rfl := Option.some.inj hs'
    have hnd := live_distinct hi'
    dsimp only at hnd
    rw [if_neg hne, List.map_cons] at hnd
    exact (List.nodup_cons.mp hnd).1

/-- A run in which a cache of two objects a slab is made and takes two slabs,
one of which is reaped. -/
theorem slab_cache_conservation_reaped :
    ∃ h, Reaches SlabHeap.step Allowed (start (fun _ => 7)) h ∧
      (h.live = [(64, 131072)] ∧ (h.slab.cache 64).numSlabs = 1 ∧
        (h.slab.cache 64).numActiveObjs = 1 ∧ (h.slab.cache 64).numFreeObjs = 1) ∧
      ∃ L fl, Conserved h L fl := by
  obtain ⟨h, hr, hh⟩ := Reaches.of_checked_script SlabHeap.step Allowed (start (fun _ => 7))
    (fun h => h.live == [(64, 131072)] && (h.slab.cache 64).numSlabs == 1 &&
      (h.slab.cache 64).numActiveObjs == 1 && (h.slab.cache 64).numFreeObjs == 1)
    [.create 2048 8 0 (some 64), .alloc 64 (some ⟨256, 65536⟩), .alloc 64 none,
      .alloc 64 (some ⟨512, 131072⟩), .write 67590 9, .free 64 67584, .alloc 64 none,
      .alloc 64 none, .free 64 67584, .free 64 133120, .free 64 65536, .reap] (by decide +kernel)
  have hh' : h.live = [(64, 131072)] ∧ (h.slab.cache 64).numSlabs = 1 ∧
      (h.slab.cache 64).numActiveObjs = 1 ∧ (h.slab.cache 64).numFreeObjs = 1 := by
    simpa [and_assoc] using hh
  exact ⟨h, hr, hh', (slab_cache_conservation (fun _ => 7) hr).1⟩

end SlabHeap

end KmOS
