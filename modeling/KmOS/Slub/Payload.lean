/-
# `KmOS.Slub.Payload` — what `cache_free` reads of an object

`cache_free` looks at memory once, at the magic word of the object, which is in
bytes the owner may write.  After that it works on the records of caches and
pages, and writes the object's first words.

## What is proved

A free from a memory whose magic word is intact changes the records, in the same
way whatever else the owner has written (`cacheFree_withMem`,
`SlubInv.cacheFree_ne`).  So the owner's bytes matter exactly if they change
whether that word is intact (`SlubInv.freesAlike_iff`).
-/
import KmOS.Lib.Overwrite
import KmOS.Slub.Heap

namespace KmOS

namespace SlubAllocator

variable {z z₁ : SlubAllocator} {cs : List Nat} {live blocks : List (Nat × Nat)} {g : Ghost}
  {a c o : Nat} {m : Memory} {f k : SlubAllocator → Option SlubAllocator}

/-- The allocator with other contents of memory. -/
def withMem (z : SlubAllocator) (m : Memory) : SlubAllocator := { z with mem := m }

/-- `cache_free` of `o` returns and does the same on the memory `m`: the records
are the same afterwards, and so is what was written. -/
def FreesAlike (z : SlubAllocator) (c o : Nat) (m : Memory) : Prop :=
  ∃ z₁ m₁, z.cacheFree c o = some z₁ ∧ (z.withMem m).cacheFree c o = some (z₁.withMem m₁) ∧
    Memory.SameWrites z.mem m z₁.mem m₁

/-! ## Functions that do not look at memory -/

/-- The function neither reads memory nor writes it. -/
def Blind (f : SlubAllocator → Option SlubAllocator) : Prop :=
  ∀ z m, f (z.withMem m) = (f z).map fun w => w.withMem m

theorem Blind.mem (h : Blind f) (hz : f z = some z₁) : z₁.mem = z.mem := by
  have hself : f z = (f z).map fun w => w.withMem z.mem := h z z.mem
  rw [hz] at hself
  have hw : z₁ = z₁.withMem z.mem := Option.some.inj hself
  rw [hw]
  rfl

theorem Blind.bind (hf : Blind f) (hk : Blind k) : Blind fun z => (f z).bind k := by
  intro z m
  dsimp only
  rw [hf z m]
  cases f z with
  | none => rfl
  | some w => exact hk w m

theorem Blind.ite {p : SlubAllocator → Prop} [DecidablePred p] (hp : ∀ z m, p (z.withMem m) ↔ p z)
    (hf : Blind f) (hk : Blind k) : Blind fun z => if p z then f z else k z := by
  intro z m
  dsimp only
  by_cases h : p z
  · rw [if_pos h, if_pos ((hp z m).mpr h)]
    exact hf z m
  · rw [if_neg h, if_neg (fun h' => h ((hp z m).mp h'))]
    exact hk z m

theorem blind_some : Blind some := fun _ _ => rfl

theorem removeLoop_withMem (z : SlubAllocator) (m : Memory) (page fuel current : Nat) :
    (z.withMem m).removeLoop page fuel current = z.removeLoop page fuel current := by
  induction fuel generalizing current with
  | zero => rfl
  | succ fuel ih =>
      unfold removeLoop
      rw [ih]
      rfl

theorem blind_removePageFromList (c : Nat) (l : SlubList) (page : Nat) :
    Blind fun z => z.removePageFromList c l page := by
  intro z m
  dsimp only
  unfold removePageFromList
  rw [show (z.withMem m).cache = z.cache from rfl, removeLoop_withMem]
  split
  · rfl
  · cases z.removeLoop page turns ((z.cache c).head l) with
    | none => rfl
    | some current =>
        show (if current ≠ 0 then some _ else some _) = Option.map _ (if current ≠ 0 then some _ else some _)
        split
        · rfl
        · rfl

theorem blind_moveIfRoom (c page : Nat) (wasFull : Bool) : Blind fun z => z.moveIfRoom c page wasFull :=
  .ite (fun _ _ => Iff.rfl)
    ((blind_removePageFromList c .fullPages page).bind fun _ _ => rfl) blind_some

theorem blind_releaseIfIdle (c page : Nat) : Blind fun z => z.releaseIfIdle c page :=
  .ite (fun _ _ => Iff.rfl)
    ((blind_removePageFromList c .partialPages page).bind fun _ _ => rfl) blind_some

theorem findPageLoop_withMem (z : SlubAllocator) (m : Memory) (o fuel p : Nat) :
    (z.withMem m).findPageLoop o fuel p = z.findPageLoop o fuel p := by
  induction fuel generalizing p with
  | zero => rfl
  | succ fuel ih =>
      unfold findPageLoop
      rw [ih]
      rfl

theorem findPage_withMem (z : SlubAllocator) (m : Memory) (c o : Nat) (l k : SlubList) :
    (z.withMem m).findPage c o l k = z.findPage c o l k := by
  unfold findPage
  rw [findPageLoop_withMem, findPageLoop_withMem]
  rfl

/-! ## `cache_free` on another memory -/

theorem blind_giveBack (c page : Nat) (wasFull : Bool) : Blind (giveBack c page wasFull) :=
  (blind_moveIfRoom c page wasFull).bind (blind_releaseIfIdle c page)

/-- The writes of a free to a page are the same from every memory. -/
theorem freeSlow_withMem (m : Memory) (hz : z.freeSlow c o = some z₁) :
    ∃ m₁, (z.withMem m).freeSlow c o = some (z₁.withMem m₁) ∧
      Memory.SameWrites z.mem m z₁.mem m₁ := by
  rw [freeSlow_eq] at hz ⊢
  obtain ⟨page, hpage, hz⟩ := Option.bind_eq_some_iff.mp hz
  rw [findPage_withMem, hpage, Option.bind_some]
  by_cases h0 : page = 0
  · rw [if_pos h0] at hz ⊢
    obtain rfl := Option.some.inj hz
    exact ⟨m, rfl, .refl _ _⟩
  rw [if_neg h0] at hz ⊢
  generalize hfull : decide ((z.page page).inuse = (z.page page).objects) = wasFull at hz
  have hfull' : decide (((z.withMem m).page page).inuse = ((z.withMem m).page page).objects) = wasFull :=
    hfull
  have hgive : (z.withMem m).afterGive c page o =
      (z.afterGive c page o).withMem (setObject 0 m o (z.page page).freelist) := rfl
  rw [hfull', hgive, blind_giveBack, hz]
  refine ⟨_, rfl, ?_⟩
  rw [(blind_giveBack c page wasFull).mem hz]
  exact (Memory.SameWrites.store32 z.mem m (o + 4) 0).trans (.store32 _ _ (o + 0) _)

theorem cpuCacheFree_withMem (z : SlubAllocator) (c o : Nat) (m : Memory) :
    ∃ m₁, (z.withMem m).cpuCacheFree c o = (z.cpuCacheFree c o).withMem m₁ ∧
      Memory.SameWrites z.mem m (z.cpuCacheFree c o).mem m₁ := by
  unfold cpuCacheFree
  by_cases h : (z.cpuCache c).batchCount < slubBatchSize
  · rw [if_pos h, if_pos (show ((z.withMem m).cpuCache c).batchCount < slubBatchSize from h)]
    exact ⟨m, rfl, .refl _ _⟩
  · rw [if_neg h, if_neg (show ¬ ((z.withMem m).cpuCache c).batchCount < slubBatchSize from h)]
    exact ⟨m.store32 (o + 0) (z.cpuCache c).freelist, rfl, .store32 _ _ _ _⟩

/-- **With the magic word intact** a free does the same from every memory. -/
theorem cacheFree_withMem (hmark : z.mem.mark o = slubMagic) (hm : m.mark o = slubMagic)
    (hz : z.cacheFree c o = some z₁) :
    ∃ m₁, (z.withMem m).cacheFree c o = some (z₁.withMem m₁) ∧
      Memory.SameWrites z.mem m z₁.mem m₁ := by
  unfold SlubAllocator.cacheFree at hz ⊢
  rw [show (z.withMem m).mem = m from rfl, show (z.withMem m).cache = z.cache from rfl,
    if_neg (not_not.mpr hm)]
  rw [if_neg (not_not.mpr hmark)] at hz
  split at hz
  · next hnull =>
      obtain rfl := Option.some.inj hz
      rw [if_pos hnull]
      exact ⟨m, rfl, .refl _ _⟩
  · next hnull =>
      rw [if_neg hnull]
      by_cases hper : percpu (z.cache c)
      · rw [if_pos hper] at hz ⊢
        obtain rfl := Option.some.inj hz
        obtain ⟨m₁, he, hw⟩ := cpuCacheFree_withMem z c o m
        exact ⟨m₁, congrArg some he, hw⟩
      · rw [if_neg hper] at hz ⊢
        exact freeSlow_withMem m hz

/-- A free is refused without the magic word. -/
theorem cacheFree_refused (hmark : z.mem.mark o ≠ slubMagic) : z.cacheFree c o = some z := by
  unfold SlubAllocator.cacheFree
  rw [if_pos hmark, ite_self]

/-! ## A free is noticed -/

theorem sameObjects_removePageFromList {l : SlubList} {page : Nat}
    (h : z.removePageFromList c l page = some z₁) : SameObjects z z₁ := by
  unfold removePageFromList at h
  split at h
  · rw [← Option.some.inj h]
    exact sameObjects_setHead z c l _
  · obtain ⟨current, _, h⟩ := Option.bind_eq_some_iff.mp h
    split at h
    · rw [← Option.some.inj h]
      exact sameObjects_setNext z current _
    · rw [← Option.some.inj h]
      exact ⟨rfl, rfl, rfl, rfl, rfl, rfl, fun _ => .refl _, fun _ => ⟨_, _, rfl⟩⟩

theorem SameObjects.active (h : SameObjects z z₁) (d : Nat) :
    (z₁.cache d).activeObjects = (z.cache d).activeObjects := by
  obtain ⟨f, n, e⟩ := h.cache d
  rw [e]

/-- What is done with the page leaves the number of active objects alone. -/
theorem active_giveBack {page : Nat} {wasFull : Bool} (h : giveBack c page wasFull z = some z₁) :
    (z₁.cache c).activeObjects = (z.cache c).activeObjects := by
  obtain ⟨w, hw, h⟩ := Option.bind_eq_some_iff.mp h
  have hroom : (w.cache c).activeObjects = (z.cache c).activeObjects := by
    unfold moveIfRoom at hw
    split at hw
    · obtain ⟨v, hv, hw⟩ := Option.bind_eq_some_iff.mp hw
      rw [← Option.some.inj hw]
      exact ((sameObjects_removePageFromList hv).trans (sameObjects_addPageToList v c _ page)).active c
    · rw [← Option.some.inj hw]
  unfold releaseIfIdle at h
  split at h
  · obtain ⟨v, hv, h⟩ := Option.bind_eq_some_iff.mp h
    obtain ⟨n, e⟩ := v.freeSlubPage_cache c page c
    rw [← Option.some.inj h, e]
    exact ((sameObjects_removePageFromList hv).active c).trans hroom
  · rw [← Option.some.inj h]
    exact hroom

theorem dec32_ne (n : Nat) : dec32 n ≠ n := by
  unfold dec32 wordSize
  split <;> omega

/-- The first object on a CPU's list is not one a client has. -/
theorem SlubInv.freelist_ne (h : SlubInv z cs live blocks g a) (hc : c ∈ cs) (ho : (c, o) ∈ live)
    (ho0 : o ≠ 0) : (z.cpuCache c).freelist ≠ o := by
  intro e
  have hi : (c, z.cpuIndex) ∈ places cs := mem_places.mpr ⟨hc, cpuIndex_lt z⟩
  have hhead : (cpuAt z (c, z.cpuIndex)).freelist = o := e
  obtain ⟨t, ht, _⟩ := (h.cpu.list _ hi).exists_cons (by rw [hhead]; exact ho0)
  have hrest : (c, o) ∈ rest z cs g.cf := by
    refine mem_rest.mpr ⟨_, hi, rfl, Or.inr ?_⟩
    rw [ht, hhead]
    exact List.mem_cons_self
  have hnd := h.cpu.nodup h.pages
  rw [List.map_append] at hnd
  exact (List.nodup_append.mp hnd).2.2 o (List.mem_map.mpr ⟨_, ho, rfl⟩) o
    (List.mem_map.mpr ⟨_, hrest, rfl⟩) rfl

/-- **A free of a client's object changes a record**: the length of the array, the
head of the list, or the number of active objects. -/
theorem SlubInv.cacheFree_ne (h : SlubInv z cs live blocks g 0) (ho : (c, o) ∈ live)
    (hmark : z.mem.mark o = slubMagic) (hz : z.cacheFree c o = some z₁) (m : Memory) :
    z₁.withMem m ≠ z.withMem m := by
  obtain ⟨a, hp, hin⟩ := h.cpu.owner (c, o) (List.mem_append_left _ ho)
  dsimp only at hp hin
  have hc : c ∈ cs := h.pages.owner _ hp
  have ho0 : o ≠ 0 := (h.pages.page _ hp).fits.ne_zero hin
  intro e
  have hcpu : z₁.cpuCache c = z.cpuCache c := congrArg (fun w => w.cpuCache c) e
  have hcache : z₁.cache c = z.cache c := congrArg (fun w => w.cache c) e
  unfold SlubAllocator.cacheFree at hz
  rw [if_neg (not_or.mpr ⟨h.chain.ne_null c hc, ho0⟩), if_neg (not_not.mpr hmark)] at hz
  by_cases hper : percpu (z.cache c)
  · rw [if_pos hper] at hz
    obtain rfl := Option.some.inj hz
    unfold cpuCacheFree at hcpu
    split at hcpu
    · have hpush : (z.pushBatch c o).cpuCache c = _ :=
        (cpuAt_modCpu z c z.cpuIndex _ (c, z.cpuIndex)).trans (if_pos rfl)
      rw [hpush] at hcpu
      exact absurd (congrArg SlubCpuCache.batchCount hcpu) (Nat.succ_ne_self _)
    · have hpush : (z.pushFree c o).cpuCache c = _ :=
        (cpuAt_modCpu _ c z.cpuIndex _ (c, z.cpuIndex)).trans (if_pos rfl)
      have hcpu : (z.pushFree c o).cpuCache c = z.cpuCache c := hcpu
      rw [hpush] at hcpu
      exact h.freelist_ne hc ho ho0 (congrArg SlubCpuCache.freelist hcpu).symm
  · rw [if_neg hper, freeSlow_eq, h.findPage_some hc hp hin (by decide), Option.bind_some,
      if_neg (h.pages.page _ hp).nonnull] at hz
    have hact := active_giveBack hz
    rw [hcache, cache_afterGive, if_pos rfl] at hact
    exact dec32_ne _ hact.symm

/-! ## The owner's bytes -/

/-- Writing a pattern over an object keeps the invariant. -/
theorem SlubInv.fill (h : SlubInv z cs live blocks g 0) (ho : (c, o) ∈ live) (p : Memory) {n : Nat}
    (hn : n ≤ (z.cache c).size) : SlubInv (z.withMem (z.mem.fill o n p)) cs live blocks g 0 := by
  induction n with
  | zero =>
      rw [Memory.fill_zero]
      exact h
  | succ n ih =>
      rw [Memory.fill_succ]
      exact (ih (Nat.le_of_succ_le hn)).write (p n)
        (Or.inl ⟨(c, o), ho, Nat.le_add_right o n, Nat.add_lt_add_left hn o⟩)

/-- A free that is refused on one of two memories only is noticed. -/
theorem SlubInv.not_alike (h : SlubInv z cs live blocks g 0) (ho : (c, o) ∈ live)
    (hmark : z.mem.mark o = slubMagic) (hm : m.mark o ≠ slubMagic) {w w' : SlubAllocator}
    (hw : z.cacheFree c o = some w) (hw' : (z.withMem m).cacheFree c o = some w') :
    w.withMem m ≠ w'.withMem m := by
  rw [cacheFree_refused (z := z.withMem m) hm] at hw'
  rw [← Option.some.inj hw']
  exact h.cacheFree_ne ho hmark hw m

/-- **The owner's bytes matter exactly if they change whether the magic word is
intact.** -/
theorem SlubInv.freesAlike_iff (h : SlubInv z cs live blocks g 0) (ho : (c, o) ∈ live) (p : Memory) :
    z.FreesAlike c o (z.mem.fill o (z.cache c).size p) ↔
      (p.mark 0 = slubMagic ↔ z.mem.mark o = slubMagic) := by
  obtain ⟨a, hp, hin⟩ := h.cpu.owner (c, o) (List.mem_append_left _ ho)
  have hsize : 8 ≤ (z.cache c).size := (h.pages.page _ hp).fits.size
  have hfill := h.fill ho p (Nat.le_refl _)
  rw [← Memory.mark_fill hsize z.mem o p]
  generalize z.mem.fill o (z.cache c).size p = m at hfill
  by_cases hz : z.mem.mark o = slubMagic <;> by_cases hm : m.mark o = slubMagic
  · obtain ⟨z₁, _, hz₁, _⟩ := h.cacheFree ho hz
    obtain ⟨m₁, hm₁, hw⟩ := cacheFree_withMem hz hm hz₁
    exact ⟨fun _ => ⟨fun _ => hz, fun _ => hm⟩, fun _ => ⟨z₁, m₁, hz₁, hm₁, hw⟩⟩
  · refine ⟨fun hf => False.elim ?_, fun hiff => absurd (hiff.mpr hz) hm⟩
    obtain ⟨z₁, m₁, hz₁, hm₁, _⟩ := hf
    exact h.not_alike ho hz hm hz₁ hm₁ rfl
  · refine ⟨fun hf => False.elim ?_, fun hiff => absurd (hiff.mp hm) hz⟩
    obtain ⟨z₁, m₁, hz₁, hm₁, _⟩ := hf
    -- the other memory is the one a free is taken from
    exact hfill.not_alike (m := z.mem) ho hm hz hm₁ hz₁ rfl
  · have hself : (z.withMem m).cacheFree c o = some (z.withMem m) := cacheFree_refused hm
    exact ⟨fun _ => ⟨fun h => absurd h hm, fun h => absurd h hz⟩,
      fun _ => ⟨z, m, cacheFree_refused hz, hself, .refl _ _⟩⟩

end SlubAllocator

namespace SlubHeap

open SlubAllocator

/-- **Whether the owner's bytes matter to `cache_free`.** -/
theorem freesAlike_iff (mem : Memory) {descs : List (Option Nat)} (hd : DescsOk descs) {h : SlubHeap}
    (hr : Reaches SlubHeap.step Allowed (SlubHeap.start mem descs) h) {c o : Nat}
    (ho : (c, o) ∈ h.live) (p : Memory) :
    h.slub.FreesAlike c o (h.slub.mem.fill o (h.slub.cache c).size p) ↔
      (p.mark 0 = slubMagic ↔ h.slub.mem.mark o = slubMagic) := by
  obtain ⟨g, hi, _⟩ := heapInv_of_reaches mem hd hr
  exact hi.inv.freesAlike_iff ho p

end SlubHeap

end KmOS
