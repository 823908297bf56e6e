/-
# `KmOS.Slub.Model` — the SLUB allocator and its per-CPU layer

`SLUBAllocator` keeps the pages of a cache on two singly linked lists, partial
and full.  A free object of a page is linked through the object itself.  A cache
with `SLUB_CACHE_PERCPU` puts objects clients give back into an array of the
running CPU, and into a list of that CPU when the array is full; they do not go
back to their page.

As in `KmOS.Slab.Model` the object memory is modelled byte by byte, descriptors
are records named by their addresses, and a loop along links is `none` when it
has not ended after `turns` turns.

**What the buddy allocator does.**  `buddy` holds what it is going to answer when
`alloc_slub_page` asks for a page and its descriptor, `none` for a refusal.
`pages` records the pages in existence, each with its cache; the allocator
looks at neither.

**What is left out.**  Names, printed text, `objsize`, `align`, `frozen`, the
fields `page` and `cache` that are never read, and the statistics `total_objects`,
`allocations`, `frees`, `cache_hits` and `cache_misses`.  `cache_destroy` and
`flush_cpu_caches` are in `KmOS.Slub.Drain`.  Constructors and destructors are
clients' code, as for slabs.
-/
import KmOS.Slab.Model

namespace KmOS

/-! ## Constants and layout of `slub.h` -/

def slubMagic : Nat := 0x51B41234
def slubMaxCpus : Nat := 32
def slubAlign : UInt32 := 16
def slubMinObjects : Nat := 16
def slubBatchSize : Nat := 16
def slubMaxOrder : Nat := 3
def slubPageSize : Nat := 4096
def slubCachePercpu : UInt32 := 0x00000001

/-- `sizeof(struct slub_object)`. -/
def sizeofSlubObject : Nat := 8

/-- `PAGE_SIZE << order`. -/
def pageBytes (order : Nat) : Nat := slubPageSize * 2 ^ order

/-- `struct slub_page`. -/
structure SlubPage where
  pageBase : Nat
  freelist : Nat
  inuse : Nat
  objects : Nat
  order : Nat
  next : Nat

/-- `struct slub_cpu_cache`. -/
structure SlubCpuCache where
  freelist : Nat
  batchCount : Nat
  batchlimit : Nat
  batchObjects : Nat → Nat

/-- The two lists of a cache. -/
inductive SlubList
  | partialPages
  | fullPages
  deriving DecidableEq

/-- `struct slub_cache`; `head` is `partial_pages` and `full_pages`. -/
structure SlubCache where
  next : Nat
  size : Nat
  flags : UInt32
  objectsPerPage : Nat
  order : Nat
  cpuCaches : Nat → SlubCpuCache
  head : SlubList → Nat
  totalPages : Nat
  activeObjects : Nat

/-- What the buddy allocator gives `alloc_slub_page`: the memory of a page, and
the descriptor. -/
structure SlubMem where
  base : Nat
  page : Nat

/-- `class SLUBAllocator`, with the descriptors and the object memory. -/
structure SlubAllocator where
  cacheChain : Nat
  sizeCaches : Nat → Nat
  currentCpu : Nat
  cache : Nat → SlubCache
  page : Nat → SlubPage
  pages : List (Nat × Nat)
  buddy : List (Option SlubMem)
  mem : Memory

namespace SlubAllocator

def modPage (z : SlubAllocator) (a : Nat) (f : SlubPage → SlubPage) : SlubAllocator :=
  { z with page := Function.update z.page a (f (z.page a)) }

def modCache (z : SlubAllocator) (c : Nat) (f : SlubCache → SlubCache) : SlubAllocator :=
  { z with cache := Function.update z.cache c (f (z.cache c)) }

/-- `*list = a`. -/
def setHead (z : SlubAllocator) (c : Nat) (l : SlubList) (a : Nat) : SlubAllocator :=
  z.modCache c fun s => { s with head := Function.update s.head l a }

def modCpu (z : SlubAllocator) (c cpu : Nat) (f : SlubCpuCache → SlubCpuCache) : SlubAllocator :=
  z.modCache c fun s => { s with cpuCaches := Function.update s.cpuCaches cpu (f (s.cpuCaches cpu)) }

/-! ## Caches -/

/-- The loop of `calculate_order`. -/
def calculateOrderLoop (size : Nat) : Nat → Nat → Nat
  | 0, _ => slubMaxOrder
  | fuel + 1, order =>
      if slubMinObjects ≤ pageBytes order / size then order
      else calculateOrderLoop size fuel (order + 1)

def calculateOrder (size : Nat) : Nat :=
  if slubMinObjects ≤ slubPageSize / size then 0 else calculateOrderLoop size slubMaxOrder 1

def calculateObjectsPerPage (objSize order : Nat) : Nat := pageBytes order / objSize

/-- The size of an object as `cache_create` computes it. -/
def objectSize (size align : UInt32) : Nat :=
  if roundUp size align < sizeofSlubObject then sizeofSlubObject else roundUp size align

/-- What `cache_create` stores, on top of the chain. -/
def newCache (next : Nat) (size align flags : UInt32) : SlubCache :=
  let size := objectSize size align
  let order := calculateOrder size
  { next := next
    size := size
    flags := flags
    objectsPerPage := calculateObjectsPerPage size order
    order := order
    cpuCaches := fun _ =>
      { freelist := 0
        batchCount := 0
        batchlimit := slubBatchSize / 2
        batchObjects := fun _ => 0 }
    head := fun _ => 0
    totalPages := 0
    activeObjects := 0 }

/-- `cache_create`, where the buddy allocator gives `cache` for the descriptor;
the new cache is 0 if it refuses. -/
def cacheCreate (z : SlubAllocator) (size align flags : UInt32) (cache : Option Nat) :
    SlubAllocator × Nat :=
  match cache with
  | none => (z, 0)
  | some c =>
      ({ z with
        cache := Function.update z.cache c (newCache z.cacheChain size align flags)
        cacheChain := c }, c)

/-! ## Page lists -/

def addPageToList (z : SlubAllocator) (c : Nat) (l : SlubList) (page : Nat) : SlubAllocator :=
  (z.modPage page fun s => { s with next := (z.cache c).head l }).setHead c l page

/-- The loop of `remove_page_from_list`: the page in front of `page`; 0 if there
is none. -/
def removeLoop (z : SlubAllocator) (page : Nat) : Nat → Nat → Option Nat
  | 0, _ => none
  | fuel + 1, current =>
      if current ≠ 0 ∧ (z.page current).next ≠ page then
        removeLoop z page fuel (z.page current).next
      else some current

def removePageFromList (z : SlubAllocator) (c : Nat) (l : SlubList) (page : Nat) :
    Option SlubAllocator :=
  if (z.cache c).head l = page then some (z.setHead c l (z.page page).next)
  else do
    let current ← removeLoop z page turns ((z.cache c).head l)
    if current ≠ 0 then
      some (z.modPage current fun s => { s with next := (z.page page).next })
    else some z

/-! ## Pages -/

/-- `obj->magic = magic; obj->next = next`. -/
def setObject (magic : Nat) (m : Memory) (obj next : Nat) : Memory :=
  (m.store32 (obj + 4) magic).store32 (obj + 0) next

/-- `alloc_slub_page` with `init_page_objects`; the page is 0 if the buddy
allocator refuses. -/
def allocSlubPage (z : SlubAllocator) (c : Nat) : SlubAllocator × Nat :=
  match z.buddy with
  | [] => (z, 0)
  | none :: buddy => ({ z with buddy := buddy }, 0)
  | some b :: buddy =>
      let cache := z.cache c
      let (m, freelist) :=
        Memory.thread (setObject 0) cache.size cache.objectsPerPage z.mem b.base 0
      let z :=
        { z with
          page := Function.update z.page b.page
            { pageBase := b.base
              freelist := freelist
              inuse := 0
              objects := cache.objectsPerPage
              order := cache.order
              next := 0 }
          pages := (c, b.page) :: z.pages
          buddy := buddy
          mem := m }
      let z := z.addPageToList c .partialPages b.page
      (z.modCache c fun s => { s with totalPages := inc32 s.totalPages }, b.page)

def freeSlubPage (z : SlubAllocator) (c page : Nat) : SlubAllocator :=
  let z := z.modCache c fun s => { s with totalPages := dec32 s.totalPages }
  { z with pages := z.pages.erase (c, page) }

/-- `alloc_from_page`; 0 if there is no free object. -/
def allocFromPage (z : SlubAllocator) (page : Nat) : SlubAllocator × Nat :=
  let obj := (z.page page).freelist
  if obj = 0 then (z, 0)
  else
    let z' := z.modPage page fun s => { s with freelist := z.mem.link obj, inuse := inc32 s.inuse }
    ({ z' with mem := setObject slubMagic z.mem obj 0 }, obj)

def freeToPage (z : SlubAllocator) (page obj : Nat) : SlubAllocator :=
  let z := { z with mem := setObject 0 z.mem obj (z.page page).freelist }
  z.modPage page fun s => { s with freelist := obj, inuse := dec32 s.inuse }

/-- The page to take an object from: the first partial one, or a new one. -/
def pickPage (z : SlubAllocator) (c : Nat) : SlubAllocator × Nat :=
  if (z.cache c).head .partialPages ≠ 0 then (z, (z.cache c).head .partialPages)
  else z.allocSlubPage c

/-- A page that has been filled up goes to the full list. -/
def moveIfFull (z : SlubAllocator) (c page : Nat) : Option SlubAllocator :=
  if (z.page page).inuse = (z.page page).objects then do
    let z ← z.removePageFromList c .partialPages page
    some (z.addPageToList c .fullPages page)
  else some z

/-! ## The per-CPU layer -/

/-- The index of the running CPU's cache. -/
def cpuIndex (z : SlubAllocator) : Nat := if slubMaxCpus ≤ z.currentCpu then 0 else z.currentCpu

def cpuCache (z : SlubAllocator) (c : Nat) : SlubCpuCache := (z.cache c).cpuCaches z.cpuIndex

/-- `batch_objects[--batch_count]`. -/
def popBatch (z : SlubAllocator) (c : Nat) : SlubAllocator × Nat :=
  let n := (z.cpuCache c).batchCount
  (z.modCpu c z.cpuIndex fun s => { s with batchCount := n - 1 },
    (z.cpuCache c).batchObjects (n - 1))

/-- `batch_objects[batch_count++] = obj`. -/
def pushBatch (z : SlubAllocator) (c obj : Nat) : SlubAllocator :=
  z.modCpu c z.cpuIndex fun s =>
    { s with batchCount := s.batchCount + 1
             batchObjects := Function.update s.batchObjects s.batchCount obj }

/-- The loop of `refill_cpu_cache`, with `n` turns to go. -/
def refillLoop (c : Nat) : Nat → SlubAllocator → Option SlubAllocator
  | 0, z => some z
  | n + 1, z =>
      let (z, page) := z.pickPage c
      if page = 0 then some z
      else
        let (z, obj) := z.allocFromPage page
        if obj = 0 then refillLoop c n z
        else do
          let z := z.pushBatch c obj
          let z := z.modCache c fun s => { s with activeObjects := inc32 s.activeObjects }
          let z ← z.moveIfFull c page
          refillLoop c n z

def refillCpuCache (z : SlubAllocator) (c : Nat) : Option SlubAllocator :=
  refillLoop c (z.cpuCache c).batchlimit z

/-- `cpu_cache_alloc`; 0 if there is no object. -/
def cpuCacheAlloc (z : SlubAllocator) (c : Nat) : Option (SlubAllocator × Nat) :=
  if 0 < (z.cpuCache c).batchCount then some (z.popBatch c)
  else if (z.cpuCache c).freelist ≠ 0 then
    let obj := (z.cpuCache c).freelist
    some (z.modCpu c z.cpuIndex fun s => { s with freelist := z.mem.link obj }, obj)
  else do
    let z ← z.refillCpuCache c
    if 0 < (z.cpuCache c).batchCount then some (z.popBatch c) else some (z, 0)

def cpuCacheFree (z : SlubAllocator) (c obj : Nat) : SlubAllocator :=
  if (z.cpuCache c).batchCount < slubBatchSize then z.pushBatch c obj
  else
    let z := { z with mem := z.mem.store32 (obj + 0) (z.cpuCache c).freelist }
    z.modCpu c z.cpuIndex fun s => { s with freelist := obj }

/-! ## Objects -/

/-- `cache->flags & SLUB_CACHE_PERCPU`. -/
def percpu (s : SlubCache) : Prop := s.flags &&& slubCachePercpu ≠ 0

instance (s : SlubCache) : Decidable (percpu s) := inferInstanceAs (Decidable (_ ≠ _))

/-- `cache_alloc` from a page. -/
def allocSlow (z : SlubAllocator) (c : Nat) : Option (SlubAllocator × Nat) :=
  let (z, page) := z.pickPage c
  if page = 0 then some (z, 0)
  else
    let (z, obj) := z.allocFromPage page
    if obj = 0 then some (z, 0)
    else do
      let z := z.modCache c fun s => { s with activeObjects := inc32 s.activeObjects }
      let z ← z.moveIfFull c page
      some (z, obj)

/-- `cache_alloc`; the object is 0 if there is none. -/
def cacheAlloc (z : SlubAllocator) (c : Nat) : Option (SlubAllocator × Nat) :=
  if c = 0 then some (z, 0)
  else if percpu (z.cache c) then do
    let (z, obj) ← z.cpuCacheAlloc c
    if obj ≠ 0 then some (z, obj) else z.allocSlow c
  else z.allocSlow c

/-- The search for the page of an object along one list; 0 if no page holds
it. -/
def findPageLoop (z : SlubAllocator) (obj : Nat) : Nat → Nat → Option Nat
  | 0, _ => none
  | fuel + 1, p =>
      if p = 0 then some 0
      else if (z.page p).pageBase ≤ obj ∧
          obj < add32 (z.page p).pageBase (pageBytes (z.page p).order) then some p
      else findPageLoop z obj fuel (z.page p).next

/-- The search along two lists of a cache. -/
def findPage (z : SlubAllocator) (c obj : Nat) (l k : SlubList) : Option Nat := do
  let page ← z.findPageLoop obj turns ((z.cache c).head l)
  if page ≠ 0 then some page else z.findPageLoop obj turns ((z.cache c).head k)

/-- A page that was full goes to the partial list. -/
def moveIfRoom (z : SlubAllocator) (c page : Nat) (wasFull : Bool) : Option SlubAllocator :=
  if wasFull ∧ (z.page page).inuse < (z.page page).objects then do
    let z ← z.removePageFromList c .fullPages page
    some (z.addPageToList c .partialPages page)
  else some z

/-- A page with all its objects back is given up, if there is another one. -/
def releaseIfIdle (z : SlubAllocator) (c page : Nat) : Option SlubAllocator :=
  if (z.page page).inuse = 0 ∧ 1 < (z.cache c).totalPages then do
    let z ← z.removePageFromList c .partialPages page
    some (z.freeSlubPage c page)
  else some z

/-- `cache_free` to the object's page. -/
def freeSlow (z : SlubAllocator) (c obj : Nat) : Option SlubAllocator := do
  let page ← z.findPage c obj .fullPages .partialPages
  if page = 0 then some z
  else
    let wasFull : Bool := (z.page page).inuse = (z.page page).objects
    let z := z.freeToPage page obj
    let z := z.modCache c fun s => { s with activeObjects := dec32 s.activeObjects }
    let z ← z.moveIfRoom c page wasFull
    z.releaseIfIdle c page

def cacheFree (z : SlubAllocator) (c obj : Nat) : Option SlubAllocator :=
  if c = 0 ∨ obj = 0 then some z
  else if z.mem.mark obj ≠ slubMagic then some z
  else if percpu (z.cache c) then some (z.cpuCacheFree c obj)
  else z.freeSlow c obj

/-- The indices of `size_caches` with their sizes. -/
def cacheSizes : List (Nat × UInt32) :=
  [(0, 16), (1, 32), (2, 64), (3, 96), (4, 128), (5, 192), (6, 256), (7, 384), (8, 512), (9, 768),
    (10, 1024), (11, 1536), (12, 2048), (13, 3072), (14, 4096), (15, 8192)]

/-- `find_size_cache`; 0 if there is none. -/
def findSizeCache (z : SlubAllocator) (size : UInt32) : Nat :=
  match cacheSizes.find? (fun p => decide (size ≤ p.2)) with
  | some p => z.sizeCaches p.1
  | none => 0

/-- The search of `free` for the cache of an object; 0 if none has it. -/
def findCache (z : SlubAllocator) (obj : Nat) : Nat → Nat → Option Nat
  | 0, _ => none
  | fuel + 1, c =>
      if c = 0 then some 0
      else do
        let page ← z.findPage c obj .partialPages .fullPages
        if page ≠ 0 then some c else findCache z obj fuel (z.cache c).next

/-- `free` of a pointer some cache has; any other goes to the buddy
allocator. -/
def free (z : SlubAllocator) (obj : Nat) : Option SlubAllocator :=
  if obj = 0 then some z
  else do
    let c ← z.findCache obj turns z.cacheChain
    if c ≠ 0 then z.cacheFree c obj else some z

/-- `init`, before it creates its size caches. -/
def init (mem : Memory) : SlubAllocator where
  cacheChain := 0
  sizeCaches := fun _ => 0
  currentCpu := 0
  cache := fun _ => newCache 0 0 0 0
  page := fun _ => ⟨0, 0, 0, 0, 0, 0⟩
  pages := []
  buddy := []
  mem := mem

end SlubAllocator

/-! ## Clients -/

/-- The allocator, the caches there are, the objects clients hold, each with
its cache, and the blocks `alloc` passed on from the buddy allocator, each with
its size. -/
structure SlubHeap where
  slub : SlubAllocator
  caches : List Nat
  live : List (Nat × Nat)
  blocks : List (Nat × Nat)

inductive SlubCall
  | create (size align flags : UInt32) (cache : Option Nat)
  | cacheAlloc (cache : Nat) (buddy : List (Option SlubMem))
  | cacheFree (cache obj : Nat)
  | alloc (size : UInt32) (buddy : List (Option SlubMem)) (block : Nat)
  | free (obj : Nat)
  | write (addr : Nat) (byte : UInt8)

namespace SlubHeap

open SlubAllocator

/-- `cache_alloc` for a client. -/
def takeFrom (h : SlubHeap) (c : Nat) (buddy : List (Option SlubMem)) : Option SlubHeap := do
  let r ← { h.slub with buddy := buddy }.cacheAlloc c
  some { h with slub := r.1, live := if r.2 = 0 then h.live else (c, r.2) :: h.live }

/-- The state after a call; `none` if a loop of it does not end. -/
def step (h : SlubHeap) : SlubCall → Option SlubHeap
  | .create size align flags cache =>
      some { h with
        slub := (h.slub.cacheCreate size align flags cache).1
        caches := cache.toList ++ h.caches }
  | .cacheAlloc c buddy => h.takeFrom c buddy
  | .cacheFree c obj => do
      let z ← h.slub.cacheFree c obj
      some { h with slub := z, live := h.live.erase (c, obj) }
  | .alloc size buddy block =>
      if size = 0 then some h
      else
        let c := h.slub.findSizeCache size
        if c = 0 then
          some { h with blocks := if block = 0 then h.blocks else (block, size.toNat) :: h.blocks }
        else h.takeFrom c buddy
  | .free obj => do
      let z ← h.slub.free obj
      some { h with
        slub := z
        live := h.live.eraseP (fun p => decide (p.2 = obj))
        blocks := h.blocks.eraseP (fun p => decide (p.1 = obj)) }
  | .write addr byte => some { h with slub := { h.slub with mem := h.slub.mem.store8 addr byte } }

/-- The bytes of a page. -/
def pageLen (z : SlubAllocator) (p : Nat × Nat) : Nat := pageBytes (z.page p.2).order

/-- `n` bytes at `a` do not meet `k` bytes at `b`. -/
def Off (a n b k : Nat) : Prop := a + n ≤ b ∨ b + k ≤ a

instance (a n b k : Nat) : Decidable (Off a n b k) := inferInstanceAs (Decidable (_ ∨ _))

/-- What the buddy allocator may give for a page of the cache `c`: a new
descriptor, and a region of `PAGE_SIZE << order` bytes that overlaps no region in
use.  Both ends of the region are addresses, neither of them null. -/
def MemOk (h : SlubHeap) (c : Nat) (b : SlubMem) : Prop :=
  b.page ≠ 0 ∧ b.page ∉ h.slub.pages.map Prod.snd ∧ b.base ≠ 0 ∧
    b.base + pageBytes (h.slub.cache c).order < wordSize ∧
    (∀ p ∈ h.slub.pages,
      Off b.base (pageBytes (h.slub.cache c).order) (h.slub.page p.2).pageBase (pageLen h.slub p)) ∧
    ∀ k ∈ h.blocks, Off b.base (pageBytes (h.slub.cache c).order) k.1 k.2

/-- What it may answer during one call of `cache_alloc`. -/
def BuddyOk (h : SlubHeap) (c : Nat) (buddy : List (Option SlubMem)) : Prop :=
  (∀ b ∈ buddy.reduceOption, MemOk h c b) ∧ buddy.reduceOption.Pairwise (fun b d =>
    b.page ≠ d.page ∧
      Off b.base (pageBytes (h.slub.cache c).order) d.base (pageBytes (h.slub.cache c).order))

/-- Caches have at least one object a page; clients allocate from caches that
exist, free what they hold, with its magic word as they got it, to the cache it
came from, and write into what they hold or outside all pages.  A block that
`alloc` gets from the buddy allocator overlaps no page. -/
def Allowed (h : SlubHeap) : SlubCall → Prop
  | .create size align _ cache => (∀ c ∈ cache, c ≠ 0 ∧ c < wordSize ∧ c ∉ h.caches) ∧
      0 < (newCache 0 size align 0).objectsPerPage
  | .cacheAlloc c buddy => c ∈ h.caches ∧ h.BuddyOk c buddy
  | .cacheFree c obj => (c, obj) ∈ h.live ∧ h.slub.mem.mark obj = slubMagic
  | .alloc size buddy block => h.BuddyOk (h.slub.findSizeCache size) buddy ∧ (block = 0 ∨
      ∀ p ∈ h.slub.pages, Off block size.toNat (h.slub.page p.2).pageBase (pageLen h.slub p))
  | .free obj => (obj ∈ h.live.map Prod.snd ∧ h.slub.mem.mark obj = slubMagic) ∨
      obj ∈ h.blocks.map Prod.fst
  | .write addr _ =>
      (∃ l ∈ h.live, l.2 ≤ addr ∧ addr < l.2 + (h.slub.cache l.1).size) ∨
      ∀ p ∈ h.slub.pages, addr < (h.slub.page p.2).pageBase ∨
        (h.slub.page p.2).pageBase + pageLen h.slub p ≤ addr

/-- One turn of the loop of `init`: a size cache is made. -/
def initCache (h : SlubHeap) (p : (Nat × UInt32) × Option Nat) : SlubHeap :=
  let r := h.slub.cacheCreate p.1.2 slubAlign slubCachePercpu p.2
  { h with
    slub := { r.1 with sizeCaches := Function.update r.1.sizeCaches p.1.1 r.2 }
    caches := p.2.toList ++ h.caches }

/-- The heap after `init`, for which the buddy allocator gives `descs`. -/
def start (mem : Memory) (descs : List (Option Nat)) : SlubHeap :=
  (cacheSizes.zip descs).foldl initCache { slub := init mem, caches := [], live := [], blocks := [] }

/-- The descriptors the buddy allocator gives are different addresses. -/
def DescsOk (descs : List (Option Nat)) : Prop :=
  (∀ c ∈ descs.reduceOption, c ≠ 0 ∧ c < wordSize) ∧ descs.reduceOption.Nodup

instance (h : SlubHeap) (c : Nat) (b : SlubMem) : Decidable (h.MemOk c b) :=
  inferInstanceAs (Decidable (_ ∧ _ ∧ _ ∧ _ ∧ _ ∧ _))

instance (h : SlubHeap) (c : Nat) (buddy : List (Option SlubMem)) : Decidable (h.BuddyOk c buddy) :=
  inferInstanceAs (Decidable (_ ∧ _))

instance (h : SlubHeap) : (c : SlubCall) → Decidable (h.Allowed c)
  | .create size align _ cache => inferInstanceAs (Decidable
      ((∀ c ∈ cache, c ≠ 0 ∧ c < wordSize ∧ c ∉ h.caches) ∧ 0 < (newCache 0 size align 0).objectsPerPage))
  | .cacheAlloc c buddy => inferInstanceAs (Decidable (c ∈ h.caches ∧ h.BuddyOk c buddy))
  | .cacheFree c obj =>
      inferInstanceAs (Decidable ((c, obj) ∈ h.live ∧ h.slub.mem.mark obj = slubMagic))
  | .alloc size buddy block => inferInstanceAs (Decidable
      (h.BuddyOk (h.slub.findSizeCache size) buddy ∧ (block = 0 ∨
      ∀ p ∈ h.slub.pages, Off block size.toNat (h.slub.page p.2).pageBase (pageLen h.slub p))))
  | .free obj => inferInstanceAs (Decidable
      ((obj ∈ h.live.map Prod.snd ∧ h.slub.mem.mark obj = slubMagic) ∨ obj ∈ h.blocks.map Prod.fst))
  | .write addr _ => inferInstanceAs (Decidable
      ((∃ l ∈ h.live, l.2 ≤ addr ∧ addr < l.2 + (h.slub.cache l.1).size) ∨
      ∀ p ∈ h.slub.pages, addr < (h.slub.page p.2).pageBase ∨
        (h.slub.page p.2).pageBase + pageLen h.slub p ≤ addr))

end SlubHeap

end KmOS
