/-
# `KmOS.Slab.SizeCaches` — `kmem_cache_alloc` and `kmem_cache_free`

`SlabAllocator::init` makes twelve caches, for objects of 8 to 16384 bytes, and
keeps them in `size_caches`, with null where the buddy allocator had no
descriptor.  `kmem_cache_alloc` picks the first size that is large enough;
`kmem_cache_free`, which is not told the size, gives the object to the first
cache that is not null.

The caches are the ones of `KmOS.Slab.Model`.  `Serves` and `TakesBack` say what
a client expects of the two calls.
-/
import KmOS.Lib.Run
import KmOS.Slab.Frame

namespace KmOS

/-- `size_cache_sizes`, each size with its index. -/
def sizeCacheSizes : List (Nat × UInt32) :=
  [(0, 8), (1, 16), (2, 32), (3, 64), (4, 128), (5, 256), (6, 512), (7, 1024), (8, 2048),
    (9, 4096), (10, 8192), (11, 16384)]

/-- `CACHE_ALIGN`. -/
def cacheAlign : UInt32 := 8

/-- `class SlabAllocator` with `size_caches`. -/
structure KmemAllocator where
  slab : SlabAllocator
  sizeCaches : Nat → Nat

namespace KmemAllocator

open SlabAllocator

/-- `find_size_cache`. -/
def findSizeCache (k : KmemAllocator) (size : UInt32) : Nat :=
  match sizeCacheSizes.find? (fun p => decide (size ≤ p.2)) with
  | some p => k.sizeCaches p.1
  | none => 0

/-- `kmem_cache_alloc`; the object is 0 if there is none. -/
def kmemCacheAlloc (k : KmemAllocator) (size : UInt32) (buddy : Option SlabMem) :
    KmemAllocator × Nat :=
  let cache := k.findSizeCache size
  if cache = 0 then (k, 0)
  else
    let r := k.slab.cacheAlloc cache buddy
    ({ k with slab := r.1 }, r.2)

/-- The cache the loop of `kmem_cache_free` stops at: the first that is not
null; 0 if all are. -/
def firstSizeCache (k : KmemAllocator) : Nat :=
  match sizeCacheSizes.find? (fun p => decide (k.sizeCaches p.1 ≠ 0)) with
  | some p => k.sizeCaches p.1
  | none => 0

def kmemCacheFree (k : KmemAllocator) (obj : Nat) : Option KmemAllocator :=
  if obj = 0 then some k
  else if k.slab.mem.mark obj ≠ slabMagic then some k
  else
    let cache := k.firstSizeCache
    if cache ≠ 0 then do
      let z ← k.slab.cacheFree cache obj
      some { k with slab := z }
    else some k

/-- One turn of the loop of `init`. -/
def initSizeCache (k : KmemAllocator) (p : (Nat × UInt32) × Option Nat) : KmemAllocator where
  slab := k.slab.cacheCreate p.1.2 cacheAlign 0 p.2
  sizeCaches := Function.update k.sizeCaches p.1.1 (p.2.getD 0)

/-- `init`, with what the buddy allocator answers the requests for
descriptors. -/
def init (mem : Memory) (descs : List (Option Nat)) : KmemAllocator :=
  (sizeCacheSizes.zip descs).foldl initSizeCache
    { slab := SlabAllocator.init mem, sizeCaches := fun _ => 0 }

/-! ## What a client expects -/

/-- `kmem_cache_alloc(size)` fails only because the buddy allocator has no block,
now or for the descriptor of the cache; otherwise it hands out an object of a
cache whose objects are large enough. -/
structure Serves (k : KmemAllocator) (size : UInt32) (buddy : Option SlabMem) : Prop where
  null : (k.kmemCacheAlloc size buddy).2 = 0 → k.findSizeCache size = 0 ∨ buddy = none
  object : (k.kmemCacheAlloc size buddy).2 ≠ 0 →
    ∃ c a, (c, a) ∈ (k.kmemCacheAlloc size buddy).1.slab.slabs ∧
      (k.kmemCacheAlloc size buddy).2 ∈ slots ((k.kmemCacheAlloc size buddy).1.slab.slab a).mem
        ((k.kmemCacheAlloc size buddy).1.slab.cache c).objSize
        ((k.kmemCacheAlloc size buddy).1.slab.cache c).numObjsPerSlab ∧
      size.toNat ≤ ((k.kmemCacheAlloc size buddy).1.slab.cache c).objSize

/-- `kmem_cache_free(obj)` of an object of the cache `c`: the cache has an active
object less, and the object is on the free list of its slab. -/
def TakesBack (k : KmemAllocator) (c obj : Nat) : Prop :=
  ∃ k', k.kmemCacheFree obj = some k' ∧
    (k'.slab.cache c).numActiveObjs + 1 = (k.slab.cache c).numActiveObjs ∧
    ∃ a l, (c, a) ∈ k'.slab.slabs ∧ InSlab k'.slab a obj ∧
      Sll 0 k'.slab.mem.link (k'.slab.slab a).freelist l ∧ obj ∈ l

end KmemAllocator

/-! ## Clients -/

/-- The allocator and the objects clients hold, each with the cache it is
from. -/
structure KmemHeap where
  kmem : KmemAllocator
  live : List (Nat × Nat)

inductive KmemCall
  | alloc (size : UInt32) (buddy : Option SlabAllocator.SlabMem)
  | free (obj : Nat)
  | write (addr : Nat) (byte : UInt8)

namespace KmemHeap

open SlabAllocator

/-- The state after a call; `none` if a loop of it does not end. -/
def step (h : KmemHeap) : KmemCall → Option KmemHeap
  | .alloc size buddy =>
      let r := h.kmem.kmemCacheAlloc size buddy
      some { kmem := r.1, live := if r.2 = 0 then h.live else (h.kmem.findSizeCache size, r.2) :: h.live }
  | .free obj => do
      let k ← h.kmem.kmemCacheFree obj
      some { kmem := k, live := h.live.eraseP (fun p => decide (p.2 = obj)) }
  | .write addr byte =>
      some { h with kmem := { h.kmem with
        slab := { h.kmem.slab with mem := h.kmem.slab.mem.store8 addr byte } } }

/-- Clients free what they hold, and write into what they hold or outside all
slabs. -/
def Allowed (h : KmemHeap) : KmemCall → Prop
  | .alloc size buddy => SlabHeap.SlabMemOk h.kmem.slab (h.kmem.findSizeCache size) buddy
  | .free obj => obj ∈ h.live.map Prod.snd
  | .write addr _ =>
      (∃ l ∈ h.live, l.2 ≤ addr ∧ addr < l.2 + (h.kmem.slab.cache l.1).objSize) ∨
      ∀ p ∈ h.kmem.slab.slabs, addr < (h.kmem.slab.slab p.2).mem ∨
        (h.kmem.slab.slab p.2).mem + SlabHeap.slabLen h.kmem.slab p ≤ addr

/-- The heap after `init`. -/
def start (mem : Memory) (descs : List (Option Nat)) : KmemHeap where
  kmem := KmemAllocator.init mem descs
  live := []

/-- The descriptors the buddy allocator gives are different addresses. -/
def DescsOk (descs : List (Option Nat)) : Prop :=
  (∀ c ∈ descs.reduceOption, c ≠ 0 ∧ c < wordSize) ∧ descs.reduceOption.Nodup

instance (descs : List (Option Nat)) : Decidable (DescsOk descs) :=
  inferInstanceAs (Decidable (_ ∧ _))

instance (h : KmemHeap) : (call : KmemCall) → Decidable (h.Allowed call)
  | .alloc size buddy =>
      inferInstanceAs (Decidable (SlabHeap.SlabMemOk h.kmem.slab (h.kmem.findSizeCache size) buddy))
  | .free obj => inferInstanceAs (Decidable (obj ∈ h.live.map Prod.snd))
  | .write addr _ => inferInstanceAs (Decidable
      ((∃ l ∈ h.live, l.2 ≤ addr ∧ addr < l.2 + (h.kmem.slab.cache l.1).objSize) ∨
      ∀ p ∈ h.kmem.slab.slabs, addr < (h.kmem.slab.slab p.2).mem ∨
        (h.kmem.slab.slab p.2).mem + SlabHeap.slabLen h.kmem.slab p ≤ addr))

end KmemHeap

end KmOS
