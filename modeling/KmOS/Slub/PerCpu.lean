/-
# `KmOS.Slub.PerCpu` — objects at rest in the per-CPU layer

An object outside its page is in a client's hands, in a CPU's batch array or on
a CPU's list.  `Cpu z cs live out cf` says so of the objects `out`, where `cf`
are the lists.  Each of the four ways in and out of the layer moves one object
(`Cpu.pushBatch`, `Cpu.popBatch`, `Cpu.pushFree`, `Cpu.popFree`); `Cpu.hand` and
`Cpu.drop` are what happens in a client's hands.
-/
import Mathlib.Data.List.ProdSigma
import KmOS.Slub.Lists

namespace KmOS

/-- A concatenation in which one part gets an element more. -/
theorem flatMap_cons_perm {ι β : Type} {f g : ι → List β} {i : ι} {b : β} {l : List ι} (hnd : l.Nodup)
    (hi : i ∈ l) (hself : (g i).Perm (b :: f i)) (hother : ∀ j ∈ l, j ≠ i → g j = f j) :
    (l.flatMap g).Perm (b :: l.flatMap f) := by
  induction l with
  | nil => exact nomatch hi
  | cons k l ih =>
      obtain ⟨hk, hnd⟩ := List.nodup_cons.mp hnd
      rw [List.flatMap_cons, List.flatMap_cons]
      rcases List.mem_cons.mp hi with rfl | hi
      · have hrest : l.flatMap g = l.flatMap f :=
          List.flatMap_congr (fun j hj => hother j (List.mem_cons_of_mem i hj) (fun e => hk (e ▸ hj)))
        rw [hrest]
        exact hself.append_right _
      · rw [hother k List.mem_cons_self (fun e => hk (e ▸ hi))]
        have ih' := ih hnd hi (fun j hj => hother j (List.mem_cons_of_mem k hj))
        exact (ih'.append_left (f k)).trans List.perm_middle

namespace SlubAllocator

variable {z z' : SlubAllocator} {cs : List Nat} {c o : Nat} {out out' : List Nat}
  {live : List (Nat × Nat)} {fl : Nat → List Nat} {cf cf' : Nat × Nat → List Nat} {i : Nat × Nat}

/-! ## Definitions -/

/-- The per-CPU caches: a cache and the index of a CPU. -/
def places (cs : List Nat) : List (Nat × Nat) := cs.product (List.range slubMaxCpus)

def cpuAt (z : SlubAllocator) (i : Nat × Nat) : SlubCpuCache := (z.cache i.1).cpuCaches i.2

/-- The objects in a batch array. -/
def batch (z : SlubAllocator) (i : Nat × Nat) : List Nat :=
  (List.range (cpuAt z i).batchCount).map (cpuAt z i).batchObjects

/-- The objects at rest, each with its cache. -/
def rest (z : SlubAllocator) (cs : List Nat) (cf : Nat × Nat → List Nat) : List (Nat × Nat) :=
  (places cs).flatMap (fun i => (batch z i ++ cf i).map (fun o => (i.1, o)))

/-- **The per-CPU layer.** -/
structure Cpu (z : SlubAllocator) (cs : List Nat) (live : List (Nat × Nat)) (out : List Nat)
    (cf : Nat × Nat → List Nat) : Prop where
  count : ∀ i ∈ places cs, (cpuAt z i).batchCount ≤ slubBatchSize
  limit : ∀ i ∈ places cs, (cpuAt z i).batchlimit = slubBatchSize / 2
  list : ∀ i ∈ places cs, Sll 0 z.mem.link (cpuAt z i).freelist (cf i)
  outside : out.Perm ((live ++ rest z cs cf).map Prod.snd)
  owner : ∀ p ∈ live ++ rest z cs cf, ∃ a, (p.1, a) ∈ z.pages ∧ (arr z (p.1, a)).Has p.2

theorem mem_places : i ∈ places cs ↔ i.1 ∈ cs ∧ i.2 < slubMaxCpus := by
  obtain ⟨c, k⟩ := i
  exact (List.mem_product ).trans (and_congr_right (fun _ => List.mem_range))

theorem places_nodup (hnd : cs.Nodup) : (places cs).Nodup := hnd.product List.nodup_range

theorem cpuIndex_lt (z : SlubAllocator) : z.cpuIndex < slubMaxCpus := by
  unfold cpuIndex
  split
  · decide
  · next h => exact Nat.lt_of_not_le h

theorem mem_rest {p : Nat × Nat} :
    p ∈ rest z cs cf ↔ ∃ i ∈ places cs, p.1 = i.1 ∧ (p.2 ∈ batch z i ∨ p.2 ∈ cf i) := by
  unfold rest
  rw [List.mem_flatMap]
  constructor
  · rintro ⟨i, hi, hp⟩
    obtain ⟨x, hx, rfl⟩ := List.mem_map.mp hp
    exact ⟨i, hi, rfl, List.mem_append.mp hx⟩
  · rintro ⟨i, hi, he, hp⟩
    exact ⟨i, hi, List.mem_map.mpr ⟨p.2, List.mem_append.mpr hp, Prod.ext he.symm rfl⟩⟩

/-- Objects on a CPU's list are outside their pages. -/
theorem Cpu.cf_out (h : Cpu z cs live out cf) (hi : i ∈ places cs) (ho : o ∈ cf i) : o ∈ out := by
  refine h.outside.mem_iff.mpr (List.mem_map.mpr ⟨(i.1, o), ?_, rfl⟩)
  exact List.mem_append_right _ (mem_rest.mpr ⟨i, hi, rfl, Or.inr ho⟩)

theorem Cpu.live_out (h : Cpu z cs live out cf) (ho : (c, o) ∈ live) : o ∈ out :=
  h.outside.mem_iff.mpr (List.mem_map.mpr ⟨(c, o), List.mem_append_left _ ho, rfl⟩)

/-! ## What does not matter -/

theorem rest_congr (h : ∀ i ∈ places cs, cpuAt z' i = cpuAt z i) : rest z' cs cf = rest z cs cf := by
  refine List.flatMap_congr (fun i hi => ?_)
  unfold batch
  rw [h i hi]

/-- The layer reads the per-CPU caches and the links of the objects on their
lists. -/
theorem Cpu.congr (h : Cpu z cs live out cf) (hcpu : ∀ i ∈ places cs, cpuAt z' i = cpuAt z i)
    (hlink : ∀ i ∈ places cs, ∀ o ∈ cf i, z'.mem.link o = z.mem.link o)
    (howner : ∀ c a o, o ∈ out → (c, a) ∈ z.pages → (arr z (c, a)).Has o →
      (c, a) ∈ z'.pages ∧ (arr z' (c, a)).Has o) : Cpu z' cs live out cf where
  count := fun i hi => by
    rw [hcpu i hi]
    exact h.count i hi
  limit := fun i hi => by
    rw [hcpu i hi]
    exact h.limit i hi
  list := fun i hi => by
    rw [hcpu i hi]
    exact (h.list i hi).congr (hlink i hi)
  outside := by
    rw [rest_congr hcpu]
    exact h.outside
  owner := by
    rw [rest_congr hcpu]
    intro p hp
    obtain ⟨a, ha, hin⟩ := h.owner p hp
    obtain ⟨ha', hin'⟩ :=
      howner p.1 a p.2 (h.outside.mem_iff.mpr (List.mem_map.mpr ⟨p, hp, rfl⟩)) ha hin
    exact ⟨a, ha', hin'⟩

theorem Cpu.perm (h : Cpu z cs live out cf) (hp : out.Perm out') : Cpu z cs live out' cf :=
  ⟨h.count, h.limit, h.list, hp.symm.trans h.outside, h.owner⟩

/-! ## In a client's hands -/

/-- An object is handed out. -/
theorem Cpu.hand (h : Cpu z cs live out cf) {a : Nat} (ha : (c, a) ∈ z.pages)
    (hin : (arr z (c, a)).Has o) : Cpu z cs ((c, o) :: live) (o :: out) cf where
  count := h.count
  limit := h.limit
  list := h.list
  outside := h.outside.cons o
  owner := fun p hp => by
    rcases List.mem_cons.mp hp with rfl | hp
    · exact ⟨a, ha, hin⟩
    · exact h.owner p hp

/-- A client lets an object go. -/
theorem Cpu.drop (h : Cpu z cs live out cf) (ho : (c, o) ∈ live) :
    Cpu z cs (live.erase (c, o)) (out.erase o) cf where
  count := h.count
  limit := h.limit
  list := h.list
  outside := by
    have h₁ := (List.perm_cons_erase (h.live_out ho)).symm.trans h.outside
    have h₂ := (((List.perm_cons_erase ho).append_right (rest z cs cf))).map Prod.snd
    exact (h₁.trans h₂).cons_inv
  owner := fun p hp => by
    refine h.owner p ?_
    rcases List.mem_append.mp hp with hp | hp
    · exact List.mem_append_left _ (List.mem_of_mem_erase hp)
    · exact List.mem_append_right _ hp

/-! ## In and out of the layer -/

theorem cpuAt_modCpu (z : SlubAllocator) (c k : Nat) (f : SlubCpuCache → SlubCpuCache)
    (i : Nat × Nat) :
    cpuAt (z.modCpu c k f) i = if i = (c, k) then f (cpuAt z (c, k)) else cpuAt z i := by
  unfold cpuAt modCpu
  rw [cache_modCache]
  by_cases hc : i.1 = c
  · rw [if_pos hc]
    dsimp only
    rw [Function.update_apply]
    by_cases hk : i.2 = k
    · rw [if_pos hk, if_pos (Prod.ext hc hk)]
    · rw [if_neg hk, if_neg (fun e => hk (congrArg Prod.snd e)), hc]
  · rw [if_neg hc, if_neg (fun e => hc (congrArg Prod.fst e))]

/-- The page memory when a per-CPU cache changes. -/
theorem arr_modCpu (z : SlubAllocator) (c k : Nat) (f : SlubCpuCache → SlubCpuCache)
    (p : Nat × Nat) : arr (z.modCpu c k f) p = arr z p := by
  refine arr_congr ⟨rfl, rfl⟩ ?_
  unfold modCpu
  rw [cache_modCache]
  split
  · next e =>
      rw [e]
      exact ⟨rfl, rfl, rfl⟩
  · exact .refl _

/-- One per-CPU cache gets an object more. -/
theorem rest_push (hnd : cs.Nodup) (hi : i ∈ places cs)
    (hself : (batch z' i ++ cf' i).Perm (o :: (batch z i ++ cf i)))
    (hother : ∀ j ∈ places cs, j ≠ i → cpuAt z' j = cpuAt z j ∧ cf' j = cf j) :
    (rest z' cs cf').Perm ((i.1, o) :: rest z cs cf) := by
  refine flatMap_cons_perm (places_nodup hnd) hi ?_ (fun j hj hne => ?_)
  · exact hself.map _
  · obtain ⟨h₁, h₂⟩ := hother j hj hne
    unfold batch
    rw [h₁, h₂]

/-- **The rule for putting an object to rest.** -/
theorem Cpu.push {a : Nat} (h : Cpu z cs live out cf) (hnd : cs.Nodup) (hi : i ∈ places cs)
    (hself : (batch z' i ++ cf' i).Perm (o :: (batch z i ++ cf i)))
    (hother : ∀ j ∈ places cs, j ≠ i → cpuAt z' j = cpuAt z j ∧ cf' j = cf j)
    (hcount : (cpuAt z' i).batchCount ≤ slubBatchSize)
    (hlimit : (cpuAt z' i).batchlimit = (cpuAt z i).batchlimit)
    (hlist : Sll 0 z'.mem.link (cpuAt z' i).freelist (cf' i))
    (hlink : ∀ j ∈ places cs, j ≠ i → ∀ x ∈ cf j, z'.mem.link x = z.mem.link x)
    (hpages : z'.pages = z.pages) (harr : ∀ p, arr z' p = arr z p) (ha : (i.1, a) ∈ z.pages)
    (hin : (arr z (i.1, a)).Has o) : Cpu z' cs live (o :: out) cf' := by
  have hrest := rest_push hnd hi hself hother
  refine ⟨fun j hj => ?_, fun j hj => ?_, fun j hj => ?_, ?_, fun p hp => ?_⟩
  · by_cases e : j = i
    · rw [e]
      exact hcount
    · rw [(hother j hj e).1]
      exact h.count j hj
  · by_cases e : j = i
    · rw [e, hlimit]
      exact h.limit i hi
    · rw [(hother j hj e).1]
      exact h.limit j hj
  · by_cases e : j = i
    · rw [e]
      exact hlist
    · rw [(hother j hj e).1, (hother j hj e).2]
      exact (h.list j hj).congr (hlink j hj e)
  · have h₁ := ((hrest.append_left live).trans List.perm_middle).map Prod.snd
    exact (h.outside.cons o).trans h₁.symm
  · have hown : ∀ q ∈ (i.1, o) :: (live ++ rest z cs cf), ∃ a, (q.1, a) ∈ z'.pages ∧
        (arr z' (q.1, a)).Has q.2 := by
      intro q hq
      rw [hpages]
      rcases List.mem_cons.mp hq with rfl | hq
      · exact ⟨a, ha, by rw [harr]; exact hin⟩
      · obtain ⟨b, hb, hinb⟩ := h.owner q hq
        exact ⟨b, hb, by rw [harr]; exact hinb⟩
    exact hown p (((hrest.append_left live).trans List.perm_middle).mem_iff.mp hp)

/-- **The rule for waking an object.** -/
theorem Cpu.pop (z' : SlubAllocator) (cf' : Nat × Nat → List Nat) (o : Nat)
    (h : Cpu z cs live out cf) (hnd : cs.Nodup) (hi : i ∈ places cs)
    (hself : (batch z i ++ cf i).Perm (o :: (batch z' i ++ cf' i)))
    (hother : ∀ j ∈ places cs, j ≠ i → cpuAt z' j = cpuAt z j ∧ cf' j = cf j)
    (hcount : (cpuAt z' i).batchCount ≤ slubBatchSize)
    (hlimit : (cpuAt z' i).batchlimit = (cpuAt z i).batchlimit)
    (hlist : Sll 0 z.mem.link (cpuAt z' i).freelist (cf' i))
    (hmem : z'.mem = z.mem) (hpages : z'.pages = z.pages) (harr : ∀ p, arr z' p = arr z p) :
    o ∈ out ∧ Cpu z' cs live (out.erase o) cf' ∧
      ∃ a, (i.1, a) ∈ z.pages ∧ (arr z (i.1, a)).Has o := by
  have hrest : (rest z cs cf).Perm ((i.1, o) :: rest z' cs cf') :=
    rest_push hnd hi hself (fun j hj hne => ⟨(hother j hj hne).1.symm, (hother j hj hne).2.symm⟩)
  have hall := (hrest.append_left live).trans List.perm_middle
  have hmem_o : o ∈ out := by
    refine h.outside.mem_iff.mpr (List.mem_map.mpr ⟨(i.1, o), ?_, rfl⟩)
    exact hall.mem_iff.mpr List.mem_cons_self
  refine ⟨hmem_o, ⟨fun j hj => ?_, fun j hj => ?_, fun j hj => ?_, ?_, fun p hp => ?_⟩,
    h.owner (i.1, o) (hall.mem_iff.mpr List.mem_cons_self)⟩
  · by_cases e : j = i
    · rw [e]
      exact hcount
    · rw [(hother j hj e).1]
      exact h.count j hj
  · by_cases e : j = i
    · rw [e, hlimit]
      exact h.limit i hi
    · rw [(hother j hj e).1]
      exact h.limit j hj
  · rw [hmem]
    by_cases e : j = i
    · rw [e]
      exact hlist
    · rw [(hother j hj e).1, (hother j hj e).2]
      exact h.list j hj
  · have h₁ := (List.perm_cons_erase hmem_o).symm.trans h.outside
    exact (h₁.trans (hall.map Prod.snd)).cons_inv
  · obtain ⟨a, ha, hin⟩ := h.owner p (hall.mem_iff.mpr (List.mem_cons_of_mem _ hp))
    exact ⟨a, hpages ▸ ha, by rw [harr]; exact hin⟩

/-- An object is put on the batch array. -/
theorem Cpu.pushBatch {a : Nat} (h : Cpu z cs live out cf) (hnd : cs.Nodup) (hc : c ∈ cs)
    (hroom : (z.cpuCache c).batchCount < slubBatchSize) (ha : (c, a) ∈ z.pages)
    (hin : (arr z (c, a)).Has o) : Cpu (z.pushBatch c o) cs live (o :: out) cf := by
  have hi : (c, z.cpuIndex) ∈ places cs := mem_places.mpr ⟨hc, cpuIndex_lt z⟩
  have hself : cpuAt (z.pushBatch c o) (c, z.cpuIndex) = { z.cpuCache c with
      batchCount := (z.cpuCache c).batchCount + 1
      batchObjects := Function.update (z.cpuCache c).batchObjects (z.cpuCache c).batchCount o } :=
    (cpuAt_modCpu z c z.cpuIndex _ _).trans (if_pos rfl)
  have hother : ∀ j ∈ places cs, j ≠ (c, z.cpuIndex) → cpuAt (z.pushBatch c o) j = cpuAt z j ∧ cf j = cf j :=
    fun j _ hne => ⟨(cpuAt_modCpu z c z.cpuIndex _ j).trans (if_neg hne), rfl⟩
  have hbatch : batch (z.pushBatch c o) (c, z.cpuIndex) = batch z (c, z.cpuIndex) ++ [o] := by
    unfold batch
    rw [hself]
    dsimp only
    rw [List.range_succ, List.map_append, List.map_singleton, Function.update_self]
    congr 1
    refine List.map_congr_left (fun n hn => Function.update_of_ne ?_ _ _)
    exact Nat.ne_of_lt (List.mem_range.mp hn)
  refine h.push hnd hi ?_ hother ?_ ?_ ?_ (fun _ _ _ _ _ => rfl) rfl (arr_modCpu z c z.cpuIndex _) ha hin
  · rw [hbatch, List.append_assoc]
    exact List.perm_middle
  · rw [hself]
    exact hroom
  · rw [hself]
    rfl
  · rw [hself]
    exact h.list _ hi

/-- What `popBatch` does to the running CPU's cache. -/
def takeLast (z : SlubAllocator) (c : Nat) (s : SlubCpuCache) : SlubCpuCache :=
  { s with batchCount := (z.cpuCache c).batchCount - 1 }

/-- The last object of the batch array is taken. -/
theorem Cpu.popBatch (h : Cpu z cs live out cf) (hnd : cs.Nodup) (hc : c ∈ cs)
    (hsome : 0 < (z.cpuCache c).batchCount) :
    (z.popBatch c).2 ∈ out ∧ Cpu (z.popBatch c).1 cs live (out.erase (z.popBatch c).2) cf ∧
      ∃ a, (c, a) ∈ z.pages ∧ (arr z (c, a)).Has (z.popBatch c).2 := by
  have hi : (c, z.cpuIndex) ∈ places cs := mem_places.mpr ⟨hc, cpuIndex_lt z⟩
  have hself : cpuAt (z.popBatch c).1 (c, z.cpuIndex) = { z.cpuCache c with
      batchCount := (z.cpuCache c).batchCount - 1 } :=
    (cpuAt_modCpu z c z.cpuIndex (takeLast z c) _).trans (if_pos rfl)
  have hother : ∀ j ∈ places cs, j ≠ (c, z.cpuIndex) → cpuAt (z.popBatch c).1 j = cpuAt z j ∧ cf j = cf j :=
    fun j _ hne => ⟨(cpuAt_modCpu z c z.cpuIndex (takeLast z c) j).trans (if_neg hne), rfl⟩
  have hbatch : batch z (c, z.cpuIndex) =
      batch (z.popBatch c).1 (c, z.cpuIndex) ++ [(z.popBatch c).2] := by
    have hn : (cpuAt z (c, z.cpuIndex)).batchCount = ((z.cpuCache c).batchCount - 1) + 1 := by
      have : (cpuAt z (c, z.cpuIndex)).batchCount = (z.cpuCache c).batchCount := rfl
      omega
    unfold batch
    rw [hself, hn, List.range_succ, List.map_append, List.map_singleton]
    rfl
  refine h.pop _ _ _ hnd hi ?_ hother ?_ ?_ ?_ rfl rfl (arr_modCpu z c z.cpuIndex (takeLast z c))
  · rw [hbatch, List.append_assoc]
    exact List.perm_middle
  · rw [hself]
    exact Nat.le_trans (Nat.sub_le _ 1) (h.count _ hi)
  · rw [hself]
    rfl
  · rw [hself]
    exact h.list _ hi

/-- An object is put on a CPU's list, by `cpu_cache_free`. -/
def pushFree (z : SlubAllocator) (c obj : Nat) : SlubAllocator :=
  { z with mem := z.mem.store32 (obj + 0) (z.cpuCache c).freelist }.modCpu c z.cpuIndex
    fun s => { s with freelist := obj }

theorem Cpu.pushFree {a : Nat} (h : Cpu z cs live out cf) (hp : Pages z cs out' fl)
    (hsub : ∀ x ∈ out, x ∈ out') (hnd : cs.Nodup) (hc : c ∈ cs) (ha : (c, a) ∈ z.pages)
    (hin : (arr z (c, a)).Has o) (hobj : o ∈ (arr z (c, a)).objs) (hnew : o ∉ out) :
    Cpu (z.pushFree c o) cs live (o :: out)
      (Function.update cf (c, z.cpuIndex) (o :: cf (c, z.cpuIndex))) := by
  have hi : (c, z.cpuIndex) ∈ places cs := mem_places.mpr ⟨hc, cpuIndex_lt z⟩
  have hself : cpuAt (z.pushFree c o) (c, z.cpuIndex) = { z.cpuCache c with freelist := o } :=
    (cpuAt_modCpu _ c z.cpuIndex _ _).trans (if_pos rfl)
  have hother : ∀ j, j ≠ (c, z.cpuIndex) → cpuAt (z.pushFree c o) j = cpuAt z j :=
    fun j hne => (cpuAt_modCpu _ c z.cpuIndex _ j).trans (if_neg hne)
  have hmem : (z.pushFree c o).mem = z.mem.store32 (o + 0) (z.cpuCache c).freelist := rfl
  -- the other objects at rest keep their links
  have hlink : ∀ j ∈ places cs, ∀ x ∈ cf j, (z.pushFree c o).mem.link x = z.mem.link x := by
    intro j hj x hx
    have hxo := h.cf_out hj hx
    obtain ⟨q, hq, _, hobjx⟩ := hp.out_obj (hsub x hxo)
    have hap := hp.apart ha hq hobj hobjx
    have h₁ := (hp.page _ ha).fits.size
    have h₂ := (hp.page _ hq).fits.size
    have hne : o ≠ x := fun e => hnew (e ▸ hxo)
    rw [hmem]
    exact Memory.load32_store32_of_disjoint (by omega)
  have hfree : (z.cpuCache c).freelist < wordSize := by
    by_cases hz : (z.cpuCache c).freelist = 0
    · rw [hz]
      decide
    · obtain ⟨t, ht, _⟩ := (h.list _ hi).exists_cons (show (cpuAt z (c, z.cpuIndex)).freelist ≠ 0 from hz)
      have hxo := h.cf_out (o := (z.cpuCache c).freelist) hi (by rw [ht]; exact List.mem_cons_self)
      obtain ⟨q, hq, hinq, _⟩ := hp.out_obj (hsub _ hxo)
      have := (hp.page _ hq).fits.space
      unfold ObjArray.Has at hinq
      unfold wordSize
      omega
  refine h.push hnd hi ?_ (fun j _ hne => ⟨hother j hne, Function.update_of_ne hne _ _⟩) ?_ ?_ ?_
    (fun j hj _ x hx => hlink j hj x hx) rfl (arr_modCpu _ c z.cpuIndex _) ha hin
  · have hbatch : batch (z.pushFree c o) (c, z.cpuIndex) = batch z (c, z.cpuIndex) := by
      unfold batch
      rw [hself]
      rfl
    rw [hbatch, Function.update_self]
    exact List.perm_middle
  · rw [hself]
    exact h.count _ hi
  · rw [hself]
    rfl
  · rw [hself, Function.update_self]
    refine (h.list _ hi).push ((hp.page _ ha).fits.ne_zero hin) ?_ (fun x hx => hlink _ hi x hx)
    rw [hmem]
    exact (Memory.load32_store32 _ _ _).trans (Nat.mod_eq_of_lt hfree)

/-- The first object of a CPU's list is taken, by `cpu_cache_alloc`. -/
def popFree (z : SlubAllocator) (c : Nat) : SlubAllocator :=
  z.modCpu c z.cpuIndex fun s => { s with freelist := z.mem.link (z.cpuCache c).freelist }

theorem Cpu.popFree (h : Cpu z cs live out cf) (hnd : cs.Nodup) (hc : c ∈ cs)
    (hsome : (z.cpuCache c).freelist ≠ 0) :
    (z.cpuCache c).freelist ∈ out ∧
      (∃ cf', Cpu (z.popFree c) cs live (out.erase (z.cpuCache c).freelist) cf') ∧
      ∃ a, (c, a) ∈ z.pages ∧ (arr z (c, a)).Has (z.cpuCache c).freelist := by
  have hi : (c, z.cpuIndex) ∈ places cs := mem_places.mpr ⟨hc, cpuIndex_lt z⟩
  obtain ⟨t, ht, htl⟩ := (h.list _ hi).exists_cons
    (show (cpuAt z (c, z.cpuIndex)).freelist ≠ 0 from hsome)
  have hself : cpuAt (z.popFree c) (c, z.cpuIndex) = { z.cpuCache c with
      freelist := z.mem.link (z.cpuCache c).freelist } :=
    (cpuAt_modCpu _ c z.cpuIndex _ _).trans (if_pos rfl)
  have hother : ∀ j, j ≠ (c, z.cpuIndex) → cpuAt (z.popFree c) j = cpuAt z j :=
    fun j hne => (cpuAt_modCpu _ c z.cpuIndex _ j).trans (if_neg hne)
  have hbatch : batch (z.popFree c) (c, z.cpuIndex) = batch z (c, z.cpuIndex) := by
    unfold batch
    rw [hself]
    rfl
  obtain ⟨h₁, h₂, h₃⟩ := h.pop (z.popFree c) (Function.update cf (c, z.cpuIndex) t)
    (z.cpuCache c).freelist hnd hi
    (by
      rw [hbatch, Function.update_self, ht]
      exact List.perm_middle)
    (fun j _ hne => ⟨hother j hne, Function.update_of_ne hne _ _⟩)
    (by rw [hself]; exact h.count _ hi) (by rw [hself]; rfl)
    (by rw [hself, Function.update_self]; exact htl) rfl rfl (arr_modCpu z c z.cpuIndex _)
  exact ⟨h₁, ⟨_, h₂⟩, h₃⟩

end SlubAllocator

end KmOS
