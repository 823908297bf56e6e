/-
# `KmOS.Slub.Drain` — emptying the per-CPU layer

`drain_cpu_cache` takes an object that rests on a CPU and gives it to
`cache_free`.  Objects rest in caches with `SLUB_CACHE_PERCPU` only, and an object
of such a cache is put to rest by `cache_free`: on the array if there is room, or
else on the list.  So nothing is ever drained.

* A turn of the loop over the batch array puts back what it took, and leaves the
  allocator as it was (`Loaded.batchTurn`).
* A turn of the loop over the list moves an object to the array as long as there
  is room (`Loaded.listTurn`), and then puts back what it took.
-/
import KmOS.Lib.Fuel
import KmOS.Slub.Heap

namespace KmOS

/-- Storing a word where it was read changes nothing. -/
theorem Memory.store32_load32 (m : Memory) (a : Nat) : m.store32 a (m.load32 a) = m := by
  funext b
  have h0 := (m a).toNat_lt
  have h1 := (m (a + 1)).toNat_lt
  have h2 := (m (a + 2)).toNat_lt
  have h3 := (m (a + 3)).toNat_lt
  unfold store32 load32
  split
  · next e =>
      rw [e]
      refine UInt8.toNat_inj.mp ?_
      rw [UInt8.toNat_ofNat']
      omega
  split
  · next e =>
      rw [e]
      refine UInt8.toNat_inj.mp ?_
      rw [UInt8.toNat_ofNat']
      omega
  split
  · next e =>
      rw [e]
      refine UInt8.toNat_inj.mp ?_
      rw [UInt8.toNat_ofNat']
      omega
  split
  · next e =>
      rw [e]
      refine UInt8.toNat_inj.mp ?_
      rw [UInt8.toNat_ofNat']
      omega
  rfl

namespace SlubAllocator

/-! ## The functions

Each takes the number of turns its loops may make. -/

/-- The first loop of `drain_cpu_cache`. -/
def drainBatchLoop (c cpu : Nat) : Nat → SlubAllocator → Option SlubAllocator
  | 0, _ => none
  | fuel + 1, z =>
      let s := (z.cache c).cpuCaches cpu
      if 0 < s.batchCount then do
        let obj := s.batchObjects (s.batchCount - 1)
        let z := z.modCpu c cpu fun s => { s with batchCount := s.batchCount - 1 }
        let z ← z.cacheFree c obj
        drainBatchLoop c cpu fuel z
      else some z

/-- The second loop. -/
def drainListLoop (c cpu : Nat) : Nat → SlubAllocator → Option SlubAllocator
  | 0, _ => none
  | fuel + 1, z =>
      let obj := ((z.cache c).cpuCaches cpu).freelist
      if obj ≠ 0 then do
        let next := z.mem.link obj
        let z := z.modCpu c cpu fun s => { s with freelist := next }
        let z ← z.cacheFree c obj
        drainListLoop c cpu fuel z
      else some z

def drainCpuCache (z : SlubAllocator) (c cpu fuel : Nat) : Option SlubAllocator :=
  if slubMaxCpus ≤ cpu then some z
  else do
    let z ← drainBatchLoop c cpu fuel z
    drainListLoop c cpu fuel z

/-- The loop of `flush_cpu_caches` over the caches. -/
def flushLoop (turns : Nat) : Nat → Nat → SlubAllocator → Option SlubAllocator
  | 0, _, _ => none
  | fuel + 1, c, z =>
      if c = 0 then some z
      else do
        let z ← (List.range slubMaxCpus).foldlM (fun z cpu => z.drainCpuCache c cpu turns) z
        flushLoop turns fuel (z.cache c).next z

def flushCpuCaches (z : SlubAllocator) (fuel : Nat) : Option SlubAllocator :=
  flushLoop fuel fuel z.cacheChain z

/-- The loops of `cache_destroy` over the pages of a list. -/
def freePagesLoop (c : Nat) : Nat → Nat → SlubAllocator → Option SlubAllocator
  | 0, _, _ => none
  | fuel + 1, page, z =>
      if page = 0 then some z
      else
        let next := (z.page page).next
        freePagesLoop c fuel next (z.freeSlubPage c page)

/-- Its loop along the chain of caches. -/
def unchainLoop (cache : Nat) : Nat → Nat → SlubAllocator → Option SlubAllocator
  | 0, _, _ => none
  | fuel + 1, c, z =>
      if c = 0 then some z
      else if (z.cache c).next = cache then
        some (z.modCache c fun s => { s with next := (z.cache cache).next })
      else unchainLoop cache fuel (z.cache c).next z

def cacheDestroy (z : SlubAllocator) (c fuel : Nat) : Option SlubAllocator :=
  if c = 0 then some z
  else do
    let z ← z.flushCpuCaches fuel
    let z ← freePagesLoop c fuel ((z.cache c).head .partialPages) z
    let z ← freePagesLoop c fuel ((z.cache c).head .fullPages) z
    if z.cacheChain = c then some { z with cacheChain := (z.cache c).next }
    else unchainLoop c fuel z.cacheChain z

/-! ## Per-CPU caches with something in them -/

variable {z z' : SlubAllocator} {cs : List Nat} {c k o fuel : Nat} {l t : List Nat} {i : Nat × Nat}

/-- What there is to say of a per-CPU cache that need not be idle: its cache has
`SLUB_CACHE_PERCPU`, its CPU is the running one, and the objects in it, those of
the list `l` among them, have the magic number. -/
structure Loaded (z : SlubAllocator) (i : Nat × Nat) (l : List Nat) : Prop where
  cache : i.1 ≠ 0
  percpu : percpu (z.cache i.1)
  running : i.2 = z.cpuIndex
  count : (cpuAt z i).batchCount ≤ slubBatchSize
  list : Sll 0 z.mem.link (cpuAt z i).freelist l
  marked : ∀ x ∈ batch z i ++ l, x ≠ 0 ∧ z.mem.mark x = slubMagic

theorem modCpu_modCpu (z : SlubAllocator) (c k : Nat) (f g : SlubCpuCache → SlubCpuCache) :
    (z.modCpu c k f).modCpu c k g = z.modCpu c k (fun s => g (f s)) := by
  unfold modCpu modCache
  dsimp only
  rw [Function.update_idem, Function.update_self]
  dsimp only
  rw [Function.update_idem, Function.update_self]

theorem modCpu_eq_self {f : SlubCpuCache → SlubCpuCache} (h : f (cpuAt z (c, k)) = cpuAt z (c, k)) :
    z.modCpu c k f = z := by
  unfold cpuAt at h
  unfold modCpu modCache
  dsimp only at h ⊢
  rw [h, Function.update_eq_self, Function.update_eq_self]

/-- `batch_objects[batch_count++] = obj`, and `freelist = obj`. -/
def pushed (o : Nat) (s : SlubCpuCache) : SlubCpuCache :=
  { s with batchCount := s.batchCount + 1
           batchObjects := Function.update s.batchObjects s.batchCount o }

namespace Loaded

theorem cpu_lt (h : Loaded z (c, k) l) : k < slubMaxCpus := by
  have hk : k = z.cpuIndex := h.running
  rw [hk]
  exact cpuIndex_lt z

theorem cpuCache_modCpu (h : Loaded z (c, k) l) (f : SlubCpuCache → SlubCpuCache) :
    (z.modCpu c k f).cpuCache c = f (cpuAt z (c, k)) := by
  have hk : z.cpuIndex = k := h.running.symm
  show cpuAt (z.modCpu c k f) (c, z.cpuIndex) = _
  rw [hk, cpuAt_modCpu, if_pos rfl]

/-- **An object with the magic number goes to rest**, on the array. -/
theorem cacheFree_room (h : Loaded z (c, k) l) {f : SlubCpuCache → SlubCpuCache} (ho : o ≠ 0)
    (hmark : z.mem.mark o = slubMagic) (hroom : (f (cpuAt z (c, k))).batchCount < slubBatchSize) :
    (z.modCpu c k f).cacheFree c o = some (z.modCpu c k (fun s => pushed o (f s))) := by
  have hk : (z.modCpu c k f).cpuIndex = k := h.running.symm
  have hmem : (z.modCpu c k f).mem = z.mem := rfl
  have hper := (percpu_congr (flags_modCpu z c k f c)).mpr h.percpu
  unfold SlubAllocator.cacheFree cpuCacheFree
  rw [if_neg (not_or.mpr ⟨h.cache, ho⟩), hmem, if_neg (not_not.mpr hmark), if_pos hper,
    h.cpuCache_modCpu, if_pos hroom]
  unfold SlubAllocator.pushBatch
  rw [hk, modCpu_modCpu]
  rfl

/-- With a full array it is put on the list. -/
theorem cacheFree_full (h : Loaded z (c, k) l) {f : SlubCpuCache → SlubCpuCache} (ho : o ≠ 0)
    (hmark : z.mem.mark o = slubMagic) (hfull : ¬ (f (cpuAt z (c, k))).batchCount < slubBatchSize) :
    (z.modCpu c k f).cacheFree c o =
      some ({ z with mem := z.mem.store32 (o + 0) (f (cpuAt z (c, k))).freelist }.modCpu c k
        (fun s => { f s with freelist := o })) := by
  have hk : (z.modCpu c k f).cpuIndex = k := h.running.symm
  have hmem : (z.modCpu c k f).mem = z.mem := rfl
  have hper := (percpu_congr (flags_modCpu z c k f c)).mpr h.percpu
  unfold SlubAllocator.cacheFree cpuCacheFree
  rw [if_neg (not_or.mpr ⟨h.cache, ho⟩), hmem, if_neg (not_not.mpr hmark), if_pos hper,
    h.cpuCache_modCpu, if_neg hfull]
  show some (({ z with mem := z.mem.store32 (o + 0) (f (cpuAt z (c, k))).freelist }.modCpu c k f).modCpu
    c (z.modCpu c k f).cpuIndex _) = _
  rw [hk, modCpu_modCpu]

/-- **A turn over the batch array** puts back what it took. -/
theorem batchTurn (h : Loaded z (c, k) l) (hsome : 0 < (cpuAt z (c, k)).batchCount) (fuel : Nat) :
    drainBatchLoop c k (fuel + 1) z = drainBatchLoop c k fuel z := by
  obtain ⟨n, hn⟩ : ∃ n, (cpuAt z (c, k)).batchCount = n + 1 := ⟨_, (Nat.sub_add_cancel hsome).symm⟩
  have hcount := h.count
  obtain ⟨ho, hmark⟩ := h.marked ((cpuAt z (c, k)).batchObjects n) (by
    refine List.mem_append_left _ (List.mem_map.mpr ⟨n, ?_, rfl⟩)
    rw [List.mem_range]
    omega)
  have hback : (z.modCpu c k fun s => { s with batchCount := s.batchCount - 1 }).cacheFree c
      ((cpuAt z (c, k)).batchObjects n) = some z := by
    rw [h.cacheFree_room ho hmark (by dsimp only; omega)]
    refine congrArg some (modCpu_eq_self ?_)
    unfold pushed
    dsimp only
    rw [hn, Nat.add_sub_cancel, Function.update_eq_self, ← hn]
  rw [drainBatchLoop]
  show (if 0 < (cpuAt z (c, k)).batchCount then
    ((z.modCpu c k _).cacheFree c ((cpuAt z (c, k)).batchObjects ((cpuAt z (c, k)).batchCount - 1))).bind
      (drainBatchLoop c k fuel) else some z) = _
  rw [if_pos hsome, hn, Nat.add_sub_cancel, hback]
  rfl

/-- What a turn over the list leads to. -/
theorem listTurn (h : Loaded z (c, k) (o :: t)) (fuel : Nat) :
    ∃ f l, drainListLoop c k (fuel + 1) z = drainListLoop c k fuel (z.modCpu c k f) ∧
      Loaded (z.modCpu c k f) (c, k) l ∧
      (cpuAt (z.modCpu c k f) (c, k)).batchCount + l.length =
        (cpuAt z (c, k)).batchCount + (o :: t).length ∧
      ((cpuAt z (c, k)).batchCount < slubBatchSize → l = t) := by
  obtain ⟨hhead, ho, ht⟩ := h.list
  obtain ⟨_, hmark⟩ := h.marked o (List.mem_append_right _ List.mem_cons_self)
  have hcount := h.count
  have hturn : drainListLoop c k (fuel + 1) z =
      ((z.modCpu c k fun s => { s with freelist := z.mem.link o }).cacheFree c o).bind
        (drainListLoop c k fuel) := by
    rw [drainListLoop]
    show (if (cpuAt z (c, k)).freelist ≠ 0 then
      ((z.modCpu c k fun s => { s with freelist := z.mem.link (cpuAt z (c, k)).freelist }).cacheFree c
        (cpuAt z (c, k)).freelist).bind (drainListLoop c k fuel) else some z) = _
    rw [hhead, if_pos ho]
  rw [hturn]
  by_cases hroom : (cpuAt z (c, k)).batchCount < slubBatchSize
  · rw [h.cacheFree_room ho hmark hroom]
    have hself : ∀ f, cpuAt (z.modCpu c k f) (c, k) = f (cpuAt z (c, k)) :=
      fun f => (cpuAt_modCpu z c k f (c, k)).trans (if_pos rfl)
    refine ⟨_, t, rfl, ⟨h.cache, (percpu_congr (flags_modCpu z c k _ c)).mpr h.percpu, h.running, ?_, ?_,
      fun x hx => ?_⟩, ?_, fun _ => rfl⟩
    · rw [hself]
      exact hroom
    · rw [hself]
      exact ht
    · refine h.marked x ?_
      rcases List.mem_append.mp hx with hx | hx
      · obtain ⟨n, hn, rfl⟩ := List.mem_map.mp hx
        rw [List.mem_range, hself] at hn
        rw [hself]
        unfold pushed at hn ⊢
        dsimp only at hn ⊢
        rcases Nat.lt_succ_iff_lt_or_eq.mp hn with hlt | rfl
        · rw [Function.update_of_ne (Nat.ne_of_lt hlt)]
          exact List.mem_append_left _ (List.mem_map.mpr ⟨n, List.mem_range.mpr hlt, rfl⟩)
        · rw [Function.update_self]
          exact List.mem_append_right _ List.mem_cons_self
      · exact List.mem_append_right _ (List.mem_cons_of_mem o hx)
    · rw [hself, List.length_cons]
      unfold pushed
      dsimp only
      omega
  · have hback : (z.modCpu c k fun s => { s with freelist := z.mem.link o }).cacheFree c o = some z := by
      have hmem : z.mem.store32 (o + 0) (z.mem.link o) = z.mem := Memory.store32_load32 z.mem (o + 0)
      rw [h.cacheFree_full ho hmark hroom]
      dsimp only
      rw [hmem, ← hhead]
      exact congrArg some (modCpu_eq_self rfl)
    have hid : z.modCpu c k id = z := modCpu_eq_self rfl
    refine ⟨id, o :: t, ?_, ?_, ?_, fun hlt => absurd hlt hroom⟩
    · rw [hback, hid]
      rfl
    · rw [hid]
      exact h
    · rw [hid]

/-! ## Draining -/

/-- With objects in the array, the first loop does not end. -/
theorem batch_hangs (h : Loaded z (c, k) l) (hsome : 0 < (cpuAt z (c, k)).batchCount) :
    ¬ Ends (drainBatchLoop c k · z) := by
  refine not_ends_of_invariant (· = z) (fun _ => rfl) ?_ rfl
  rintro fuel s rfl
  exact ⟨s, rfl, h.batchTurn hsome fuel⟩

/-- With more objects than the array has room for, the second does not. -/
theorem list_hangs (h : Loaded z (c, k) l)
    (hmany : slubBatchSize < (cpuAt z (c, k)).batchCount + l.length) :
    ¬ Ends (drainListLoop c k · z) := by
  refine not_ends_of_invariant
    (fun s => ∃ l, Loaded s (c, k) l ∧ slubBatchSize < (cpuAt s (c, k)).batchCount + l.length)
    (fun _ => rfl) ?_ ⟨l, h, hmany⟩
  rintro fuel s ⟨l, hs, hmany⟩
  cases l with
  | nil => exact absurd hs.count (Nat.not_le.mpr hmany)
  | cons o t =>
      obtain ⟨f, l₁, hturn, h₁, hsum, _⟩ := hs.listTurn fuel
      exact ⟨_, ⟨l₁, h₁, hsum ▸ hmany⟩, hturn⟩

theorem drainListLoop_nil (h : Loaded z (c, k) []) (fuel : Nat) :
    drainListLoop c k (fuel + 1) z = some z := by
  have hhead : (cpuAt z (c, k)).freelist = 0 := h.list
  rw [drainListLoop]
  exact if_neg (not_not.mpr hhead)

theorem list_ends (h : Loaded z (c, k) l)
    (hroom : (cpuAt z (c, k)).batchCount + l.length ≤ slubBatchSize) :
    ∃ z', drainListLoop c k (l.length + 1) z = some z' := by
  induction l generalizing z with
  | nil => exact ⟨z, h.drainListLoop_nil 0⟩
  | cons o t ih =>
      rw [List.length_cons] at hroom ⊢
      obtain ⟨f, l₁, hturn, h₁, hsum, hl⟩ := h.listTurn (t.length + 1)
      obtain rfl := hl (by omega)
      rw [hturn]
      exact ih h₁ (by rw [hsum, List.length_cons]; omega)

/-- If it ends, all the objects are in the array. -/
theorem list_result (h : Loaded z (c, k) l) (hs : drainListLoop c k fuel z = some z') :
    ∃ f, z' = z.modCpu c k f ∧ Loaded z' (c, k) [] ∧
      (cpuAt z' (c, k)).batchCount = (cpuAt z (c, k)).batchCount + l.length := by
  induction fuel generalizing z l with
  | zero => exact nomatch hs
  | succ fuel ih =>
      cases l with
      | nil =>
          rw [h.drainListLoop_nil] at hs
          obtain rfl := Option.some.inj hs
          exact ⟨id, (modCpu_eq_self rfl).symm, h, rfl⟩
      | cons o t =>
          obtain ⟨f, l₁, hturn, h₁, hsum, _⟩ := h.listTurn fuel
          obtain ⟨f', rfl, h', hcount⟩ := ih h₁ (hturn ▸ hs)
          refine ⟨fun s => f' (f s), modCpu_modCpu z c k f f', h', hcount.trans hsum⟩

theorem batch_result (h : Loaded z (c, k) l) (hs : drainBatchLoop c k fuel z = some z') :
    (cpuAt z (c, k)).batchCount = 0 ∧ z' = z := by
  by_contra hno
  cases fuel with
  | zero => exact nomatch hs
  | succ fuel =>
      by_cases hzero : (cpuAt z (c, k)).batchCount = 0
      · rw [drainBatchLoop] at hs
        have hs : (if 0 < (cpuAt z (c, k)).batchCount then _ else some z) = some z' := hs
        rw [if_neg (by omega)] at hs
        exact hno ⟨hzero, (Option.some.inj hs).symm⟩
      · exact h.batch_hangs (Nat.pos_of_ne_zero hzero) ⟨fuel + 1, z', hs⟩

end Loaded

theorem drainBatchLoop_zero (hzero : (cpuAt z (c, k)).batchCount = 0) (fuel : Nat) :
    drainBatchLoop c k (fuel + 1) z = some z := by
  rw [drainBatchLoop]
  show (if 0 < (cpuAt z (c, k)).batchCount then _ else some z) = _
  rw [if_neg (by omega)]

/-- An idle per-CPU cache is drained at once. -/
theorem Idle.drain (h : Idle z (c, k)) (fuel : Nat) : z.drainCpuCache c k (fuel + 1) = some z := by
  unfold drainCpuCache
  split
  · rfl
  · rw [drainBatchLoop_zero h.1]
    show drainListLoop c k (fuel + 1) z = some z
    rw [drainListLoop]
    exact if_neg (not_not.mpr h.2)

/-- **When draining one per-CPU cache ends**: nothing is in the array, and what is
on the list has room in it. -/
theorem Loaded.drain_ends_iff (h : Loaded z (c, k) l) :
    Ends (z.drainCpuCache c k) ↔ (cpuAt z (c, k)).batchCount = 0 ∧ l.length ≤ slubBatchSize := by
  have hk : ¬ slubMaxCpus ≤ k := Nat.not_le.mpr h.cpu_lt
  have heq : ∀ fuel, z.drainCpuCache c k fuel =
      (drainBatchLoop c k fuel z).bind (drainListLoop c k fuel) := fun fuel => if_neg hk
  constructor
  · rintro ⟨fuel, r, hr⟩
    rw [heq] at hr
    obtain ⟨z₁, hz₁, hlist⟩ := Option.bind_eq_some_iff.mp hr
    obtain ⟨hzero, rfl⟩ := h.batch_result hz₁
    refine ⟨hzero, Nat.le_of_not_lt (fun hmany => ?_)⟩
    exact h.list_hangs (by omega) ⟨fuel, r, hlist⟩
  · rintro ⟨hzero, hroom⟩
    obtain ⟨z', hz'⟩ := h.list_ends (by omega)
    refine ⟨l.length + 1, z', ?_⟩
    rw [heq, drainBatchLoop_zero hzero]
    exact hz'

/-- If it ends, as many objects are in it as were before. -/
theorem Loaded.drain_result (h : Loaded z (c, k) l) (hs : z.drainCpuCache c k fuel = some z') :
    ∃ f, z' = z.modCpu c k f ∧ Loaded z' (c, k) [] ∧ (Idle z' (c, k) ↔ Idle z (c, k)) := by
  have hk : ¬ slubMaxCpus ≤ k := Nat.not_le.mpr h.cpu_lt
  unfold drainCpuCache at hs
  rw [if_neg hk] at hs
  obtain ⟨z₁, hz₁, hlist⟩ := Option.bind_eq_some_iff.mp hs
  obtain ⟨hzero, rfl⟩ := h.batch_result hz₁
  obtain ⟨f, he, h', hcount⟩ := h.list_result hlist
  refine ⟨f, he, h', ?_⟩
  have hhead' : (cpuAt z' (c, k)).freelist = 0 := h'.list
  have hhead := h.list.head_eq_null_iff
  unfold Idle
  rw [hcount, hzero, Nat.zero_add, List.length_eq_zero_iff, ← hhead]
  exact ⟨fun hi => ⟨rfl, hi.1⟩, fun hi => ⟨hi.2, hhead'⟩⟩

/-! ## Flushing -/

/-- Every per-CPU cache is idle or as `Loaded` says. -/
def AllLoaded (z : SlubAllocator) (cs : List Nat) : Prop :=
  ∀ i ∈ places cs, Idle z i ∨ ∃ l, Loaded z i l

/-- Draining moves objects inside a per-CPU cache and empties none. -/
structure Stirred (cs : List Nat) (z z' : SlubAllocator) : Prop where
  next : ∀ d, (z'.cache d).next = (z.cache d).next
  idle : ∀ i ∈ places cs, Idle z' i ↔ Idle z i
  loaded : AllLoaded z' cs

theorem Stirred.trans {z'' : SlubAllocator} (h : Stirred cs z z') (h' : Stirred cs z' z'') :
    Stirred cs z z'' where
  next := fun d => (h'.next d).trans (h.next d)
  idle := fun i hi => (h'.idle i hi).trans (h.idle i hi)
  loaded := h'.loaded

theorem Stirred.refl (h : AllLoaded z cs) : Stirred cs z z := ⟨fun _ => rfl, fun _ _ => .rfl, h⟩

/-- Another per-CPU cache changes. -/
theorem Loaded.modCpu_of_ne (h : Loaded z i l) (hne : i ≠ (c, k)) (f : SlubCpuCache → SlubCpuCache) :
    Loaded (z.modCpu c k f) i l := by
  have hself : cpuAt (z.modCpu c k f) i = cpuAt z i := (cpuAt_modCpu z c k f i).trans (if_neg hne)
  refine ⟨h.cache, (percpu_congr (flags_modCpu z c k f i.1)).mpr h.percpu, h.running, ?_, ?_, ?_⟩
  · rw [hself]
    exact h.count
  · rw [hself]
    exact h.list
  · unfold batch
    rw [hself]
    exact h.marked

theorem AllLoaded.drain (h : AllLoaded z cs) (hi : (c, k) ∈ places cs)
    (hs : z.drainCpuCache c k fuel = some z') : Stirred cs z z' := by
  rcases h (c, k) hi with hidle | ⟨l, hl⟩
  · cases fuel with
    | zero =>
        unfold drainCpuCache at hs
        rw [if_neg (Nat.not_le.mpr (mem_places.mp hi).2)] at hs
        exact nomatch hs
    | succ fuel =>
        rw [hidle.drain] at hs
        obtain rfl := Option.some.inj hs
        exact .refl h
  · obtain ⟨f, rfl, h', hiff⟩ := hl.drain_result hs
    refine ⟨fun d => (frame_modCpu z c k f).cacheNext d, fun j _ => ?_, fun j hj => ?_⟩
    · by_cases e : j = (c, k)
      · rw [e]
        exact hiff
      · unfold Idle
        rw [cpuAt_modCpu, if_neg e]
    · by_cases e : j = (c, k)
      · rw [e]
        exact Or.inr ⟨[], h'⟩
      · rcases h j hj with hidle | ⟨l', hl'⟩
        · unfold Idle at hidle ⊢
          rw [cpuAt_modCpu, if_neg e]
          exact Or.inl hidle
        · exact Or.inr ⟨l', hl'.modCpu_of_ne e f⟩

theorem AllLoaded.drainAll (h : AllLoaded z cs) (hc : c ∈ cs) {ks : List Nat}
    (hks : ∀ k ∈ ks, k < slubMaxCpus)
    (hs : ks.foldlM (fun z cpu => z.drainCpuCache c cpu fuel) z = some z') : Stirred cs z z' := by
  induction ks generalizing z with
  | nil =>
      obtain rfl := Option.some.inj hs
      exact .refl h
  | cons k ks ih =>
      rw [List.foldlM_cons] at hs
      obtain ⟨z₁, hz₁, hs⟩ := Option.bind_eq_some_iff.mp hs
      have h₁ := h.drain (mem_places.mpr ⟨hc, hks k List.mem_cons_self⟩) hz₁
      exact h₁.trans (ih h₁.loaded (fun k hk => hks k (List.mem_cons_of_mem _ hk)) hs)

/-- **Flushing drains nothing.** -/
theorem AllLoaded.flushLoop (h : AllLoaded z cs) {turns head : Nat} {l : List Nat}
    (hl : Sll 0 (fun c => (z.cache c).next) head l) (hsub : ∀ c ∈ l, c ∈ cs)
    (hs : flushLoop turns fuel head z = some z') : Stirred cs z z' := by
  induction fuel generalizing z head l with
  | zero => exact nomatch hs
  | succ fuel ih =>
      rw [SlubAllocator.flushLoop] at hs
      cases l with
      | nil =>
          rw [if_pos (show head = 0 from hl)] at hs
          obtain rfl := Option.some.inj hs
          exact .refl h
      | cons c l =>
          obtain ⟨rfl, hc0, ht⟩ := hl
          rw [if_neg hc0] at hs
          obtain ⟨z₁, hz₁, hs⟩ := Option.bind_eq_some_iff.mp hs
          have h₁ := h.drainAll (hsub head List.mem_cons_self) (fun k hk => List.mem_range.mp hk) hz₁
          rw [h₁.next] at hs
          exact h₁.trans (ih h₁.loaded (ht.congr (fun d _ => h₁.next d))
            (fun d hd => hsub d (List.mem_cons_of_mem head hd)) hs)

theorem flushLoop_idle (h : ∀ i ∈ places cs, Idle z i) {turns head : Nat} {l : List Nat}
    (hl : Sll 0 (fun c => (z.cache c).next) head l) (hsub : ∀ c ∈ l, c ∈ cs)
    (hfuel : l.length < fuel) : flushLoop (turns + 1) fuel head z = some z := by
  induction fuel generalizing head l with
  | zero => exact absurd hfuel (Nat.not_lt_zero _)
  | succ fuel ih =>
      rw [SlubAllocator.flushLoop]
      cases l with
      | nil => exact if_pos hl
      | cons c l =>
          obtain ⟨rfl, hc0, ht⟩ := hl
          have hall : ∀ ks : List Nat, (∀ k ∈ ks, k < slubMaxCpus) →
              ks.foldlM (fun z cpu => z.drainCpuCache head cpu (turns + 1)) z = some z := by
            intro ks hks
            induction ks with
            | nil => rfl
            | cons k ks ih' =>
                have hk := h (head, k) (mem_places.mpr ⟨hsub head List.mem_cons_self, hks k List.mem_cons_self⟩)
                rw [List.foldlM_cons, hk.drain]
                exact ih' (fun k hk => hks k (List.mem_cons_of_mem _ hk))
          rw [if_neg hc0, hall _ (fun k hk => List.mem_range.mp hk)]
          exact ih ht (fun d hd => hsub d (List.mem_cons_of_mem head hd)) (Nat.lt_of_succ_lt_succ hfuel)

/-! ## Destroying a cache -/

theorem freePagesLoop_ends {page : Nat} (hl : Sll 0 (pageNext z) page l) (hfuel : l.length < fuel) :
    ∃ z', freePagesLoop c fuel page z = some z' ∧ z'.page = z.page ∧ z'.cacheChain = z.cacheChain ∧
      ∀ d, (z'.cache d).next = (z.cache d).next ∧ (z'.cache d).head = (z.cache d).head := by
  induction fuel generalizing z page l with
  | zero => exact absurd hfuel (Nat.not_lt_zero _)
  | succ fuel ih =>
      rw [freePagesLoop]
      cases l with
      | nil =>
          rw [if_pos (show page = 0 from hl)]
          exact ⟨z, rfl, rfl, rfl, fun _ => ⟨rfl, rfl⟩⟩
      | cons b l =>
          obtain ⟨rfl, hb0, ht⟩ := hl
          rw [if_neg hb0]
          obtain ⟨z', hz', hpage, hchain, hcache⟩ := ih (z := z.freeSlubPage c page)
            (ht.congr (fun _ _ => rfl)) (Nat.lt_of_succ_lt_succ hfuel)
          refine ⟨z', hz', hpage, hchain, fun d => ?_⟩
          obtain ⟨n, e⟩ := z.freeSlubPage_cache c page d
          rw [(hcache d).1, (hcache d).2, e]
          exact ⟨rfl, rfl⟩

theorem unchainLoop_ends {head : Nat} (hl : Sll 0 (fun c => (z.cache c).next) head l)
    (hfuel : l.length < fuel) : ∃ z', unchainLoop c fuel head z = some z' := by
  induction fuel generalizing head l with
  | zero => exact absurd hfuel (Nat.not_lt_zero _)
  | succ fuel ih =>
      rw [unchainLoop]
      cases l with
      | nil => exact ⟨z, if_pos hl⟩
      | cons b l =>
          obtain ⟨rfl, hb0, ht⟩ := hl
          rw [if_neg hb0]
          split
          · exact ⟨_, rfl⟩
          · exact ih ht (Nat.lt_of_succ_lt_succ hfuel)

/-- The object `o` is on the list that starts at `head`. -/
def OnList (z : SlubAllocator) (head o : Nat) : Prop := ∃ l, Sll 0 z.mem.link head l ∧ o ∈ l

end SlubAllocator

namespace SlubHeap

open SlubAllocator

variable {h : SlubHeap} {g : Ghost} {c : Nat}

theorem HeapInv.allLoaded (hi : HeapInv h g) (hm : Marked h.slub h.live g.out) (hq : Quiet h.slub) :
    AllLoaded h.slub h.caches := by
  intro i hip
  by_cases hrun : percpu (h.slub.cache i.1) ∧ i.2 = h.slub.cpuIndex
  · refine Or.inr ⟨g.cf i, hi.inv.chain.ne_null _ (mem_places.mp hip).1, hrun.1, hrun.2,
      hi.inv.cpu.count i hip, hi.inv.cpu.list i hip, fun x hx => ?_⟩
    have hrest : (i.1, x) ∈ rest h.slub h.caches g.cf :=
      mem_rest.mpr ⟨i, hip, rfl, List.mem_append.mp hx⟩
    have hout : x ∈ g.out :=
      hi.inv.cpu.outside.mem_iff.mpr (List.mem_map.mpr ⟨_, List.mem_append_right _ hrest, rfl⟩)
    obtain ⟨p, hp, hin, _⟩ := hi.inv.pages.out_obj hout
    -- what is at rest is nobody's
    have hnd := hi.inv.cpu.nodup hi.inv.pages
    rw [List.map_append] at hnd
    refine ⟨(hi.inv.pages.page p hp).fits.ne_zero hin, hm.rest x hout (fun hl => ?_)⟩
    exact (List.nodup_append.mp hnd).2.2 x hl x (List.mem_map.mpr ⟨_, hrest, rfl⟩) rfl
  · exact Or.inl (hq i hrun)

/-- Nothing is at rest. -/
def Still (h : SlubHeap) : Prop := ∀ i ∈ places h.caches, Idle h.slub i

theorem HeapInv.flush_still (hi : HeapInv h g) (hs : Still h) :
    h.slub.flushCpuCaches turns = some h.slub := by
  obtain ⟨n, hn⟩ : ∃ n, turns = n + 1 := ⟨wordSize - 1, rfl⟩
  have hlen := hi.inv.chain_lt
  unfold flushCpuCaches
  generalize turns = fuel at hn hlen ⊢
  subst hn
  exact flushLoop_idle hs hi.inv.chain (fun _ hc => hc) hlen

theorem HeapInv.destroy_still (hi : HeapInv h g) (hs : Still h) (hc : c ∈ h.caches) :
    Ends (h.slub.cacheDestroy c) := by
  obtain ⟨z₁, hz₁, hpage₁, hchain₁, hcache₁⟩ := freePagesLoop_ends (c := c)
    (hi.inv.lists.list (c, .partialPages) hc) (hi.inv.list_lt (i := (c, .partialPages)) hc)
  have hlist₂ : Sll 0 (pageNext z₁) ((z₁.cache c).head .fullPages) (g.lists (c, .fullPages)) := by
    rw [(hcache₁ c).2]
    refine (hi.inv.lists.list (c, .fullPages) hc).congr (fun b _ => ?_)
    unfold pageNext
    rw [hpage₁]
  obtain ⟨z₂, hz₂, _, hchain₂, hcache₂⟩ := freePagesLoop_ends (c := c) hlist₂
    (hi.inv.list_lt (i := (c, .fullPages)) hc)
  have hcaches : Sll 0 (fun d => (z₂.cache d).next) z₂.cacheChain h.caches := by
    rw [hchain₂, hchain₁]
    exact hi.inv.chain.congr (fun d _ => (hcache₂ d).1.trans (hcache₁ d).1)
  obtain ⟨z₃, hz₃⟩ := unchainLoop_ends (c := c) hcaches hi.inv.chain_lt
  have hz₁ : freePagesLoop c turns ((h.slub.cache c).head .partialPages) h.slub = some z₁ := hz₁
  refine ⟨turns, if z₂.cacheChain = c then { z₂ with cacheChain := (z₂.cache c).next } else z₃, ?_⟩
  unfold cacheDestroy
  rw [if_neg (hi.inv.chain.ne_null c hc), hi.flush_still hs]
  show (freePagesLoop c turns ((h.slub.cache c).head .partialPages) h.slub).bind _ = _
  rw [hz₁]
  show (freePagesLoop c turns ((z₁.cache c).head .fullPages) z₁).bind _ = _
  rw [hz₂]
  show (if z₂.cacheChain = c then some { z₂ with cacheChain := (z₂.cache c).next }
    else unchainLoop c turns z₂.cacheChain z₂) = _
  split
  · rfl
  · exact hz₃

/-- **What draining is for**: the functions end, and `flush_cpu_caches` empties
the per-CPU layer, its objects going to the lists of their pages. -/
structure Drains (h : SlubHeap) : Prop where
  drain : ∀ c ∈ h.caches, ∀ cpu, Ends (h.slub.drainCpuCache c cpu)
  flush : ∃ fuel z, h.slub.flushCpuCaches fuel = some z ∧ (∀ i ∈ places h.caches, Idle z i) ∧
    ∀ i ∈ places h.caches, ∀ o,
      o ∈ SlubAllocator.batch h.slub i ∨ OnList h.slub (cpuAt h.slub i).freelist o →
      ∀ a, (i.1, a) ∈ z.pages → (arr z (i.1, a)).Has o → OnList z (z.page a).freelist o
  destroy : ∀ c ∈ h.caches, Ends (h.slub.cacheDestroy c)

theorem HeapInv.drains (hi : HeapInv h g) (hs : Still h) : Drains h where
  drain := fun c hc cpu => by
    refine ⟨1, h.slub, ?_⟩
    by_cases hcpu : slubMaxCpus ≤ cpu
    · exact if_pos hcpu
    · exact (hs (c, cpu) (mem_places.mpr ⟨hc, Nat.lt_of_not_le hcpu⟩)).drain 0
  flush := by
    refine ⟨turns, h.slub, hi.flush_still hs, hs, fun i hi o ho => ?_⟩
    obtain ⟨hcount, hfree⟩ := hs i hi
    rcases ho with ho | ⟨l, hl, ho⟩
    · unfold SlubAllocator.batch at ho
      rw [hcount] at ho
      exact nomatch ho
    · rw [hl.head_eq_null_iff.mp hfree] at ho
      exact nomatch ho
  destroy := fun c hc => hi.destroy_still hs hc

/-! ## The result -/

/-- **Draining works when there is nothing to drain.**  In every state reached,
draining one per-CPU cache ends when nothing is in its array and what is on its
list has room there, and all of `Drains` holds when nothing is at rest. -/
theorem drains_iff (mem : Memory) {descs : List (Option Nat)} (hd : DescsOk descs)
    (hr : Reaches SlubHeap.step Allowed (start mem descs) h) :
    (∀ i ∈ places h.caches, ∃ l, Sll 0 h.slub.mem.link (cpuAt h.slub i).freelist l ∧
      (Ends (h.slub.drainCpuCache i.1 i.2) ↔
        (cpuAt h.slub i).batchCount = 0 ∧ l.length ≤ slubBatchSize)) ∧
      (Drains h ↔ Still h) := by
  obtain ⟨g, hi, hm, hq⟩ := heapInv_of_reaches mem hd hr
  have hall := hi.allLoaded hm hq
  refine ⟨fun i hip => ?_, fun hdr => ?_, hi.drains⟩
  · rcases hall i hip with hidle | ⟨l, hl⟩
    · exact ⟨[], hidle.2, iff_of_true ⟨1, h.slub, hidle.drain 0⟩ ⟨hidle.1, Nat.zero_le _⟩⟩
    · exact ⟨l, hl.list, hl.drain_ends_iff⟩
  · obtain ⟨fuel, z, hz, hidle, _⟩ := hdr.flush
    have hst := hall.flushLoop hi.inv.chain (fun _ hc => hc) hz
    exact fun i hip => (hst.idle i hip).mp (hidle i hip)

/-- A cache with `SLUB_CACHE_PERCPU` that has handed out all its objects. -/
theorem drains_all_handed_out :
    ∃ h, Reaches SlubHeap.step Allowed (start (fun _ => 7) []) h ∧
      h.live = [(64, 81920), (64, 65536)] ∧ Drains h := by
  obtain ⟨h, hr, hh⟩ := Reaches.of_checked_script SlubHeap.step Allowed (start (fun _ => 7) [])
    (fun h => h.live == [(64, 81920), (64, 65536)] &&
      (places h.caches).all fun i => decide (Idle h.slub i))
    [.create 16384 16 1 (some 64), .cacheAlloc 64 [some ⟨65536, 1000⟩, none], .cacheAlloc 64 []]
    (by decide +kernel)
  rw [Bool.and_eq_true, List.all_eq_true] at hh
  exact ⟨h, hr, by simpa using hh.1,
    (drains_iff (fun _ => 7) descsOk_nil hr).2.mpr (fun i hi => of_decide_eq_true (hh.2 i hi))⟩

theorem flush_hangs {z : SlubAllocator} (hc : z.cacheChain ≠ 0)
    (hd : ¬ Ends (z.drainCpuCache z.cacheChain 0)) : ¬ Ends z.flushCpuCaches := by
  rw [not_ends_iff] at hd ⊢
  intro fuel
  cases fuel with
  | zero => rfl
  | succ fuel =>
      have hcpus : List.range slubMaxCpus = 0 :: (List.range 31).map Nat.succ := List.range_succ_eq_map
      unfold flushCpuCaches
      rw [SlubAllocator.flushLoop, if_neg hc, hcpus, List.foldlM_cons, hd]
      rfl

theorem destroy_hangs {z : SlubAllocator} (hc : c ≠ 0) (hf : ¬ Ends z.flushCpuCaches) :
    ¬ Ends (z.cacheDestroy c) := by
  rw [not_ends_iff] at hf ⊢
  intro fuel
  unfold cacheDestroy
  rw [if_neg hc, hf]
  rfl

/-- A cache with `SLUB_CACHE_PERCPU`, one of whose objects was handed out and
given back. -/
theorem drain_hangs :
    ∃ h, Reaches SlubHeap.step Allowed (start (fun _ => 7) []) h ∧ h.caches = [64] ∧ h.live = [] ∧
      ¬ Ends (h.slub.drainCpuCache 64 0) ∧ ¬ Ends h.slub.flushCpuCaches ∧
      ¬ Ends (h.slub.cacheDestroy 64) := by
  obtain ⟨h, hr, hh⟩ := Reaches.of_checked_script SlubHeap.step Allowed (start (fun _ => 7) [])
    (fun h => h.caches == [64] && h.live == [] && h.slub.cacheChain == 64 &&
      (cpuAt h.slub (64, 0)).batchCount == 2)
    [.create 16384 16 1 (some 64), .cacheAlloc 64 [some ⟨65536, 1000⟩, none], .cacheFree 64 65536]
    (by decide +kernel)
  have hh' : h.caches = [64] ∧ h.live = [] ∧ h.slub.cacheChain = 64 ∧
      (cpuAt h.slub (64, 0)).batchCount = 2 := by
    simpa [and_assoc] using hh
  obtain ⟨hcaches, hlive, hchain, hcount⟩ := hh'
  obtain ⟨g, hi, hm, hq⟩ := heapInv_of_reaches (fun _ => 7) descsOk_nil hr
  have hip : (64, 0) ∈ places h.caches := by
    rw [hcaches]
    exact mem_places.mpr ⟨List.mem_cons_self, by decide⟩
  have hdrain : ¬ Ends (h.slub.drainCpuCache 64 0) := by
    intro hends
    rcases hi.allLoaded hm hq (64, 0) hip with hidle | ⟨l, hl⟩
    · exact nomatch hcount.symm.trans hidle.1
    · exact nomatch hcount.symm.trans (hl.drain_ends_iff.mp hends).1
  have hflush : ¬ Ends h.slub.flushCpuCaches :=
    flush_hangs (hchain ▸ (by decide : (64 : Nat) ≠ 0)) (by rw [hchain]; exact hdrain)
  exact ⟨h, hr, hcaches, hlive, hdrain, hflush, destroy_hangs (by decide) hflush⟩

end SlubHeap

end KmOS
