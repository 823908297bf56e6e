/-
# `KmOS.Slub.DoubleFree` — a second free, on the page and on the CPU

## What is proved

An object that was given back and has not been handed out again is freed a
second time.  If its cache does not have `SLUB_CACHE_PERCPU` nothing happens: the
object is on the list of its page, with the magic word 0, or its page is gone and
none is found.  Clients may do so as often as they like, and every object has one
owner (`slub_double_free_iff`).

## What is not

`cpu_cache_free` leaves the magic word as it is.  An object that rests on a CPU
looks like one that is in use; freed a second time it rests there twice, and two
clients get it (`slub_double_free_two_owners`).
-/
import KmOS.Slub.Heap

namespace KmOS

namespace SlubAllocator

variable {z : SlubAllocator} {cs : List Nat} {live blocks : List (Nat × Nat)} {g : Ghost} {c o : Nat}

/-- What is outside the pages and in nobody's hands is at rest, in a cache with
`SLUB_CACHE_PERCPU`. -/
theorem SlubInv.percpu_of_out (h : SlubInv z cs live blocks g 0) (hq : Quiet z) {a : Nat}
    (hp : (c, a) ∈ z.pages) (hin : (arr z (c, a)).Has o) (ho : o ∈ g.out)
    (hno : o ∉ live.map Prod.snd) : percpu (z.cache c) := by
  obtain ⟨q, hqm, he⟩ := List.mem_map.mp (h.cpu.outside.mem_iff.mp ho)
  have hrest : q ∈ rest z cs g.cf :=
    (List.mem_append.mp hqm).resolve_left (fun hl => hno (he ▸ List.mem_map.mpr ⟨q, hl, rfl⟩))
  obtain ⟨b, hb, hinb⟩ := h.cpu.owner q hqm
  have hqc : q.1 = c := by
    rw [he] at hinb
    exact congrArg Prod.fst (h.pages.page_unique hb hp hinb hin)
  obtain ⟨i, hip, hi, hmem⟩ := mem_rest.mp hrest
  by_contra hper
  -- an idle CPU has nothing at rest
  obtain ⟨hcount, hfree⟩ := hq i (fun hrun => hper (hqc ▸ hi ▸ hrun.1))
  rcases hmem with hmem | hmem
  · unfold batch at hmem
    rw [hcount] at hmem
    exact nomatch hmem
  · rw [(h.cpu.list i hip).head_eq_null_iff.mp hfree] at hmem
    exact nomatch hmem

/-- An object is an object of the pages of its cache that have its address. -/
def IsObject (z : SlubAllocator) (c o : Nat) : Prop :=
  ∀ p ∈ z.pages, p.1 = c → (arr z p).Has o → o ∈ (arr z p).objs

instance (z : SlubAllocator) (c o : Nat) : Decidable (IsObject z c o) :=
  inferInstanceAs (Decidable (∀ p ∈ z.pages, _))

/-- **To a page**: what is in nobody's hands is not freed again. -/
theorem SlubInv.freeAgain_page (h : SlubInv z cs live blocks g 0) (hm : Marked z live g.out)
    (hq : Quiet z) (hc : c ∈ cs) (hobj : IsObject z c o) (hno : o ∉ live.map Prod.snd)
    (hper : ¬ percpu (z.cache c)) : z.cacheFree c o = some z := by
  unfold SlubAllocator.cacheFree
  by_cases hnull : c = 0 ∨ o = 0
  · rw [if_pos hnull]
  by_cases hmark : z.mem.mark o = slubMagic
  · rw [if_neg hnull, if_neg (not_not.mpr hmark), if_neg hper]
    have hnone : ∀ b, (c, b) ∈ z.pages → ¬ (arr z (c, b)).Has o := by
      intro b hb hin
      have hfree : o ∉ g.out := fun ho => hper (h.percpu_of_out hq hb hin ho hno)
      have hzero := hm.free (c, b) hb o (hobj (c, b) hb rfl hin) hfree
      exact nomatch hzero.symm.trans hmark
    unfold SlubAllocator.freeSlow
    rw [h.findPage_zero hc hnone]
    rfl
  · rw [if_neg hnull, if_pos hmark]

/-- Putting an object to rest is noticed: the array gets longer, or the list gets
another head, or the link of its head another value. -/
theorem Cpu.cpuCacheFree_ne {out : List Nat} {cf : Nat × Nat → List Nat} (h : Cpu z cs live out cf)
    (hc : c ∈ cs) (ho : o ≠ 0) (how : o < wordSize) : z.cpuCacheFree c o ≠ z := by
  have hi : (c, z.cpuIndex) ∈ places cs := mem_places.mpr ⟨hc, cpuIndex_lt z⟩
  intro e
  unfold cpuCacheFree at e
  split at e
  · have hcount : (cpuAt (z.pushBatch c o) (c, z.cpuIndex)).batchCount =
        (cpuAt z (c, z.cpuIndex)).batchCount + 1 := by
      unfold SlubAllocator.pushBatch
      rw [cpuAt_modCpu, if_pos rfl]
    rw [e] at hcount
    exact absurd hcount (Nat.ne_of_lt (Nat.lt_succ_self _))
  · have he : z.pushFree c o = z := e
    have hhead : (cpuAt (z.pushFree c o) (c, z.cpuIndex)).freelist = o := by
      unfold SlubAllocator.pushFree
      rw [cpuAt_modCpu, if_pos rfl]
    have hlink : (z.pushFree c o).mem.link o = (z.cpuCache c).freelist % wordSize :=
      Memory.load32_store32 z.mem (o + 0) _
    have hself : (cpuAt z (c, z.cpuIndex)).freelist = (z.cpuCache c).freelist := rfl
    rw [he] at hhead hlink
    rw [← hself, hhead, Nat.mod_eq_of_lt how] at hlink
    have hlist := h.list _ hi
    rw [hhead] at hlist
    exact hlist.next_ne_head ho hlink

/-- **To a CPU**: what is at rest goes there a second time. -/
theorem SlubInv.freeAgain_cpu (h : SlubInv z cs live blocks g 0) (hm : Marked z live g.out)
    (hc : c ∈ cs) (ho : o ∈ g.out) (hno : o ∉ live.map Prod.snd) (hper : percpu (z.cache c)) :
    z.cacheFree c o ≠ some z := by
  obtain ⟨p, hp, hin, _⟩ := h.pages.out_obj ho
  have hfits := (h.pages.page p hp).fits
  have hlt : o < wordSize := by
    have hspace := hfits.space
    unfold ObjArray.Has at hin
    unfold wordSize
    omega
  unfold SlubAllocator.cacheFree
  rw [if_neg (not_or.mpr ⟨h.chain.ne_null c hc, hfits.ne_zero hin⟩),
    if_neg (not_not.mpr (hm.rest o ho hno)), if_pos hper]
  exact fun e => h.cpu.cpuCacheFree_ne hc (hfits.ne_zero hin) hlt (Option.some.inj e)

end SlubAllocator

/-! ## Clients that free twice -/

/-- A call, or another free of an object in nobody's hands. -/
inductive SlubCallAgain
  | call (k : SlubCall)
  | freeAgain (cache obj : Nat)

namespace SlubHeap

open SlubAllocator

variable {h h' : SlubHeap} {g : Ghost} {c o : Nat}

def stepAgain (h : SlubHeap) : SlubCallAgain → Option SlubHeap
  | .call k => h.step k
  | .freeAgain c o => do
      let z ← h.slub.cacheFree c o
      some { h with slub := z }

/-- The cache of the object does not have `SLUB_CACHE_PERCPU`. -/
def AllowedAgain (h : SlubHeap) : SlubCallAgain → Prop
  | .call k => h.Allowed k
  | .freeAgain c o => c ∈ h.caches ∧ o ∉ h.live.map Prod.snd ∧ IsObject h.slub c o ∧
      ¬ percpu (h.slub.cache c)

instance (h : SlubHeap) : (k : SlubCallAgain) → Decidable (h.AllowedAgain k)
  | .call k => inferInstanceAs (Decidable (h.Allowed k))
  | .freeAgain c o => inferInstanceAs (Decidable (c ∈ h.caches ∧ o ∉ h.live.map Prod.snd ∧
      IsObject h.slub c o ∧ ¬ percpu (h.slub.cache c)))

/-- The call does not hand the object `o` out. -/
def KeepsBack (o : Nat) (h : SlubHeap) (k : SlubCallAgain) : Prop :=
  ∀ h' ∈ h.stepAgain k, o ∉ h'.live.map Prod.snd

instance (o : Nat) (h : SlubHeap) (k : SlubCallAgain) : Decidable (KeepsBack o h k) :=
  match e : h.stepAgain k with
  | none => .isTrue (by intro h' hs; rw [e] at hs; exact nomatch hs)
  | some u => decidable_of_iff (o ∉ u.live.map Prod.snd) (by
      constructor
      · intro hno h' hs
        rw [e] at hs
        exact Option.some.inj hs ▸ hno
      · exact fun hk => hk u e)

/-- The calls that give an object back. -/
def GivesBack (c o : Nat) (k : SlubCall) : Prop := k = .cacheFree c o ∨ k = .free o

/-- A heap, as it is between calls. -/
def Good (h : SlubHeap) (g : Ghost) : Prop :=
  HeapInv h g ∧ Marked h.slub h.live g.out ∧ Quiet h.slub

theorem Good.call {k : SlubCall} (hg : Good h g) (hok : h.Allowed k) (hs : h.step k = some h') :
    ∃ g', Good h' g' ∧ StepCarries h g h' g' := by
  obtain ⟨hi, hm, hq⟩ := hg
  obtain ⟨h₁, g₁, hs₁, hi₁, hcarry⟩ := hi.step hok
  rw [hs] at hs₁
  obtain rfl := Option.some.inj hs₁
  exact ⟨g₁, ⟨hi₁, hcarry.marked hm, hcarry.quiet hq⟩, hcarry⟩

/-- A second free leaves all as it is. -/
theorem Good.stepAgain {k : SlubCallAgain} (hg : Good h g) (hok : h.AllowedAgain k)
    (hs : h.stepAgain k = some h') : ∃ g', Good h' g' ∧ StepCarries h g h' g' := by
  cases k with
  | call k => exact hg.call hok hs
  | freeAgain c o =>
      obtain ⟨hi, hm, hq⟩ := hg
      obtain ⟨hc, hno, hobj, hper⟩ := hok
      have hs : (h.slub.cacheFree c o).bind (fun z => some { h with slub := z }) = some h' := hs
      rw [hi.inv.freeAgain_page hm hq hc hobj hno hper] at hs
      obtain rfl := Option.some.inj hs
      exact ⟨g, ⟨hi, hm, hq⟩, .refl h g⟩

theorem good_of_reaches (mem : Memory) {descs : List (Option Nat)} (hd : DescsOk descs)
    (hr : Reaches SlubHeap.stepAgain AllowedAgain (SlubHeap.start mem descs) h) : ∃ g, Good h g := by
  refine hr.invariant (I := fun h => ∃ g, Good h g) (HeapInv.start mem hd) ?_
  rintro u k u' ⟨g, hg⟩ hok hs
  obtain ⟨g', hg', _⟩ := hg.stepAgain hok hs
  exact ⟨g', hg'⟩

/-- A freed object: nobody has it, and on a CPU it is outside its page. -/
def Freed (c o : Nat) (h : SlubHeap) : Prop :=
  ∃ g, Good h g ∧ c ∈ h.caches ∧ o ∉ h.live.map Prod.snd ∧ (percpu (h.slub.cache c) → o ∈ g.out)

theorem Good.freed {k : SlubCall} (hg : Good h g) (ho : (c, o) ∈ h.live)
    (hmagic : h.slub.mem.mark o = slubMagic) (hk : GivesBack c o k) (hs : h.step k = some h') :
    Freed c o h' := by
  obtain ⟨a, hp, _⟩ := hg.1.inv.cpu.owner (c, o) (List.mem_append_left _ ho)
  have hc : c ∈ h.caches := hg.1.inv.pages.owner _ hp
  have hok : h.Allowed k := by
    rcases hk with rfl | rfl
    · exact ⟨ho, hmagic⟩
    · exact Or.inl ⟨List.mem_map.mpr ⟨_, ho, rfl⟩, hmagic⟩
  have honly : ∀ p ∈ h.live, p.2 = o → p = (c, o) :=
    fun p hp e => List.inj_on_of_nodup_map hg.1.live_nodup hp ho e
  have hlive : h'.live = h.live.erase (c, o) := by
    rcases hk with rfl | rfl
    · obtain ⟨z, _, he⟩ := Option.bind_eq_some_iff.mp hs
      rw [← Option.some.inj he]
    · obtain ⟨z, _, he⟩ := Option.bind_eq_some_iff.mp hs
      rw [← Option.some.inj he]
      exact eraseP_key (f := Prod.snd) hg.1.live_nodup ho
  obtain ⟨g', hg', hcarry⟩ := hg.call hok hs
  obtain ⟨hc', hflags⟩ := hcarry.caches c hc
  refine ⟨g', hg', hc', ?_, fun hper => ?_⟩
  · intro hm
    obtain ⟨p, hp, e⟩ := List.mem_map.mp hm
    rw [hlive] at hp
    have hpo := honly p (List.mem_of_mem_erase hp) e
    have hnd : h.live.Nodup := hg.1.live_nodup.of_map _
    exact (hnd.mem_erase_iff.mp hp).1 hpo
  · refine hcarry.rest o (hg.1.inv.cpu.live_out ho) (fun p hp e => ?_)
    rw [honly p hp e]
    exact (percpu_congr hflags).mp hper

theorem Freed.stepAgain {k : SlubCallAgain} (hf : Freed c o h) (hok : h.AllowedAgain k)
    (hback : KeepsBack o h k) (hs : h.stepAgain k = some h') : Freed c o h' := by
  obtain ⟨g, hg, hc, hno, hout⟩ := hf
  obtain ⟨g', hg', hcarry⟩ := hg.stepAgain hok hs
  obtain ⟨hc', hflags⟩ := hcarry.caches c hc
  refine ⟨g', hg', hc', hback h' hs, fun hper => ?_⟩
  refine hcarry.rest o (hout ((percpu_congr hflags).mp hper)) (fun p hp e => ?_)
  exact absurd (List.mem_map.mpr ⟨p, hp, e⟩) hno

/-- **A second free changes nothing exactly when the cache does not have
`SLUB_CACHE_PERCPU`**, and as long as it is only made of objects of such caches,
every object has one owner. -/
theorem slub_double_free_iff (mem : Memory) {descs : List (Option Nat)} (hd : DescsOk descs)
    {h₀ h₁ h₂ : SlubHeap} (hr : Reaches SlubHeap.stepAgain AllowedAgain (start mem descs) h₀)
    (ho : (c, o) ∈ h₀.live) (hmagic : h₀.slub.mem.mark o = slubMagic) {k : SlubCall}
    (hk : GivesBack c o k) (hs : h₀.step k = some h₁)
    (hr' : Reaches SlubHeap.stepAgain (fun h k => h.AllowedAgain k ∧ KeepsBack o h k) h₁ h₂)
    (hobj : IsObject h₂.slub c o) :
    (h₂.slub.cacheFree c o = some h₂.slub ↔ ¬ percpu (h₂.slub.cache c)) ∧
      (h₂.live.map Prod.snd).Nodup := by
  obtain ⟨g, hg⟩ := good_of_reaches mem hd hr
  obtain ⟨g₂, ⟨hi, hm, hq⟩, hc, hno, hout⟩ := hr'.invariant (I := Freed c o)
    (hg.freed ho hmagic hk hs) (fun u k u' hf hok hs => hf.stepAgain hok.1 hok.2 hs)
  refine ⟨⟨fun he hper => ?_, fun hper => ?_⟩, hi.live_nodup⟩
  · exact hi.inv.freeAgain_cpu hm hc (hout hper) hno hper he
  · exact hi.inv.freeAgain_page hm hq hc hobj hno hper

/-- A page with two objects of a cache without `SLUB_CACHE_PERCPU`: one of them is
given back, freed again, and freed again after the other one was given back. -/
theorem slub_double_free_page :
    ∃ h₀ h₁ h₂, Reaches SlubHeap.stepAgain AllowedAgain (start (fun _ => 7) []) h₀ ∧
      (128, 147456) ∈ h₀.live ∧ h₀.step (.free 147456) = some h₁ ∧
      Reaches SlubHeap.stepAgain (fun h k => h.AllowedAgain k ∧ KeepsBack 147456 h k) h₁ h₂ ∧
      h₂.slub.cacheFree 128 147456 = some h₂.slub := by
  obtain ⟨h₀, hr, hp⟩ := Reaches.of_checked_script SlubHeap.stepAgain AllowedAgain
    (start (fun _ => 7) [])
    (fun h => decide ((128, 147456) ∈ h.live) && decide (h.slub.mem.mark 147456 = slubMagic) &&
      ((h.step (.free 147456)).bind fun h =>
        ([.freeAgain 128 147456, .call (.cacheFree 128 131072)] : List SlubCallAgain).foldlM
          (checkedStep SlubHeap.stepAgain fun h k => h.AllowedAgain k ∧ KeepsBack 147456 h k) h).any
        fun h => decide (IsObject h.slub 128 147456) && decide (¬ percpu (h.slub.cache 128)))
    [.call (.create 16384 16 0 (some 128)), .call (.cacheAlloc 128 [some ⟨131072, 2000⟩]),
      .call (.cacheAlloc 128 [])] (by decide +kernel)
  rw [Bool.and_eq_true, Bool.and_eq_true] at hp
  obtain ⟨⟨ho, hmagic⟩, hp⟩ := hp
  have ho := of_decide_eq_true ho
  cases hs : h₀.step (.free 147456) with
  | none =>
      rw [hs] at hp
      exact nomatch hp
  | some h₁ =>
      rw [hs] at hp
      obtain ⟨h₂, hr', hl⟩ := Reaches.of_checked_script SlubHeap.stepAgain
        (fun h k => h.AllowedAgain k ∧ KeepsBack 147456 h k) h₁
        (fun h => decide (IsObject h.slub 128 147456) && decide (¬ percpu (h.slub.cache 128)))
        [.freeAgain 128 147456, .call (.cacheFree 128 131072)] hp
      rw [Bool.and_eq_true] at hl
      exact ⟨h₀, h₁, h₂, hr, ho, hs, hr', (slub_double_free_iff (fun _ => 7) descsOk_nil hr ho
        (of_decide_eq_true hmagic) (Or.inr rfl) hs hr' (of_decide_eq_true hl.1)).1.mpr
        (of_decide_eq_true hl.2)⟩

/-- With `SLUB_CACHE_PERCPU` the object rests twice, and the next two clients both
get it. -/
theorem slub_double_free_two_owners :
    ∃ h₀ h₁, Reaches SlubHeap.step Allowed (start (fun _ => 7) []) h₀ ∧ (64, 65536) ∈ h₀.live ∧
      h₀.slub.mem.mark 65536 = slubMagic ∧ h₀.step (.cacheFree 64 65536) = some h₁ ∧
      ∃ z, h₁.slub.cacheFree 64 65536 = some z ∧ z ≠ h₁.slub ∧
        ∃ z₁ z₂, z.cacheAlloc 64 = some (z₁, 65536) ∧ z₁.cacheAlloc 64 = some (z₂, 65536) := by
  obtain ⟨h₀, hr, hp⟩ := Reaches.of_checked_script SlubHeap.step Allowed (start (fun _ => 7) [])
    (fun h => decide ((64, 65536) ∈ h.live) && decide (h.slub.mem.mark 65536 = slubMagic) &&
      (h.step (.cacheFree 64 65536)).any fun h => (h.slub.cacheFree 64 65536).any fun z =>
        decide ((cpuAt z (64, 0)).batchCount ≠ (cpuAt h.slub (64, 0)).batchCount) &&
        (z.cacheAlloc 64).any fun r => decide (r.2 = 65536) &&
          (r.1.cacheAlloc 64).any fun r => decide (r.2 = 65536))
    [.create 16384 16 1 (some 64), .cacheAlloc 64 [some ⟨65536, 1000⟩, none]] (by decide +kernel)
  rw [Bool.and_eq_true, Bool.and_eq_true] at hp
  obtain ⟨⟨ho, hmagic⟩, hp⟩ := hp
  obtain ⟨h₁, hs, hp⟩ := (Option.any_eq_true _ _).mp hp
  obtain ⟨z, hz, hp⟩ := (Option.any_eq_true _ _).mp hp
  rw [Bool.and_eq_true] at hp
  obtain ⟨hne, hp⟩ := hp
  obtain ⟨⟨z₁, o₁⟩, hz₁, hp⟩ := (Option.any_eq_true _ _).mp hp
  rw [Bool.and_eq_true] at hp
  obtain ⟨ho₁, hp⟩ := hp
  obtain ⟨⟨z₂, o₂⟩, hz₂, ho₂⟩ := (Option.any_eq_true _ _).mp hp
  obtain rfl : o₁ = 65536 := of_decide_eq_true ho₁
  obtain rfl : o₂ = 65536 := of_decide_eq_true ho₂
  exact ⟨h₀, h₁, hr, of_decide_eq_true ho, of_decide_eq_true hmagic, hs, z, hz,
    fun e => of_decide_eq_true hne (by rw [e]), z₁, z₂, hz₁, hz₂⟩

end SlubHeap

end KmOS
