/-
# `KmOS.Slab.Model` — the slab allocator

`SlabAllocator` keeps, for every cache, slabs of objects of one size on three
doubly linked lists: full, partial and empty.  The free objects of a slab are
linked through the objects themselves, so the object memory is modelled byte by
byte; the descriptors (`struct slab`, `struct slab_cache`) are records, named by
their addresses.

A loop that follows links is given `turns` turns and is `none` when it has not
ended by then.

**What the buddy allocator does.**  A call that may need memory is given the
buddy's answers as arguments.  `slabs` records the slabs in existence, each with
its cache; the allocator never looks at it.

**What is left out.**  Names, printed text, and `cache_destroy`.  A cache's
constructor and destructor are clients' code, run on an object the client has
just been given or is about to give back: their stores are `write` calls, right
after `cache_alloc` or right before `cache_free`.
-/
import KmOS.Lib.Freelist
import KmOS.Slob.Model

namespace KmOS

/-! ## Constants and layout of `slab.h` -/

def slabMagic : Nat := 0x5AB1234
def slabMaxSize : Nat := 4096

/-- `sizeof(struct slab_obj)`. -/
def sizeofSlabObj : Nat := 8

/-- `(size + align - 1) & ~(align - 1)`. -/
def roundUp (size align : UInt32) : Nat := ((size + align - 1) &&& ~~~(align - 1)).toNat

/-- `struct slab`. -/
structure Slab where
  next : Nat
  prev : Nat
  mem : Nat
  inuse : Nat
  free : Nat
  freelist : Nat
  size : Nat
  order : Nat
  magic : Nat

/-- The three lists of a cache. -/
inductive SlabList
  | slabsFull
  | slabsPartial
  | slabsEmpty
  deriving DecidableEq

/-- `struct slab_cache`; `head` is `slabs_full`, `slabs_partial` and
`slabs_empty`. -/
structure SlabCache where
  next : Nat
  objSize : Nat
  align : Nat
  flags : Nat
  numObjsPerSlab : Nat
  gfpOrder : Nat
  head : SlabList → Nat
  numSlabs : Nat
  numActiveObjs : Nat
  numFreeObjs : Nat

/-- `class SlabAllocator`, with the descriptors and the object memory. -/
structure SlabAllocator where
  cacheChain : Nat
  cache : Nat → SlabCache
  slab : Nat → Slab
  slabs : List (Nat × Nat)
  mem : Memory

namespace SlabAllocator

def modSlab (z : SlabAllocator) (a : Nat) (f : Slab → Slab) : SlabAllocator :=
  { z with slab := Function.update z.slab a (f (z.slab a)) }

def modCache (z : SlabAllocator) (c : Nat) (f : SlabCache → SlabCache) : SlabAllocator :=
  { z with cache := Function.update z.cache c (f (z.cache c)) }

/-- `*list = a`. -/
def setHead (z : SlabAllocator) (c : Nat) (l : SlabList) (a : Nat) : SlabAllocator :=
  z.modCache c fun s => { s with head := Function.update s.head l a }

/-! ## Caches -/

/-- The loop of `cache_create` that picks the size of a slab. -/
def slabSizeLoop (objSize : Nat) : Nat → Nat → Nat
  | 0, slabSize => slabSize
  | fuel + 1, slabSize =>
      if slabSize < objSize * 8 % wordSize ∧ slabSize < slabMaxSize then
        slabSizeLoop objSize fuel (slabSize * 2 % wordSize)
      else slabSize

def calculateNumObjs (objSize slabSize : Nat) : Nat := slabSize / objSize

/-- What `cache_create` stores, on top of the chain. -/
def newCache (next : Nat) (size align flags : UInt32) : SlabCache :=
  let objSize := roundUp size align
  let slabSize := slabSizeLoop objSize 32 minBlockSize
  { next := next
    objSize := objSize
    align := align.toNat
    flags := flags.toNat
    numObjsPerSlab := calculateNumObjs objSize slabSize
    gfpOrder := BuddyZone.getOrder slabSize
    head := fun _ => 0
    numSlabs := 0
    numActiveObjs := 0
    numFreeObjs := 0 }

/-- `cache_create`, where the buddy allocator gives `cache` for the
descriptor. -/
def cacheCreate (z : SlabAllocator) (size align flags : UInt32) (cache : Option Nat) :
    SlabAllocator :=
  match cache with
  | none => z
  | some c =>
      { z with
        cache := Function.update z.cache c (newCache z.cacheChain size align flags)
        cacheChain := c }

/-! ## Slabs -/

/-- One turn of the loop of `slab_create` over the new objects. -/
def putObj (m : Memory) (obj next : Nat) : Memory :=
  (m.store32 (obj + 0) next).store32 (obj + 4) slabMagic

/-- What the buddy allocator gives `slab_create`: the descriptor, and the
memory for the objects. -/
structure SlabMem where
  slab : Nat
  mem : Nat

/-- `slab_create`; the new slab is 0 if the buddy allocator refused either
request. -/
def slabCreate (z : SlabAllocator) (c : Nat) (buddy : Option SlabMem) : SlabAllocator × Nat :=
  match buddy with
  | none => (z, 0)
  | some b =>
      let cache := z.cache c
      let (m, freelist) := Memory.thread putObj cache.objSize cache.numObjsPerSlab z.mem b.mem 0
      let z :=
        { z with
          slab := Function.update z.slab b.slab
            { next := 0
              prev := 0
              mem := b.mem
              inuse := 0
              free := cache.numObjsPerSlab
              freelist := freelist
              size := cache.objSize
              order := cache.gfpOrder
              magic := slabMagic }
          slabs := (c, b.slab) :: z.slabs
          mem := m }
      (z.modCache c fun s =>
        { s with numFreeObjs := add32 s.numFreeObjs s.numObjsPerSlab }, b.slab)

def slabDestroy (z : SlabAllocator) (c a : Nat) : SlabAllocator :=
  if a = 0 ∨ (z.slab a).magic ≠ slabMagic then z
  else
    let z := z.modCache c fun s => { s with numFreeObjs := sub32 s.numFreeObjs (z.slab a).free }
    let z := { z with slabs := z.slabs.erase (c, a) }
    z.modCache c fun s => { s with numSlabs := dec32 s.numSlabs }

/-- `slab_alloc_obj`; 0 if there is none. -/
def slabAllocObj (z : SlabAllocator) (a : Nat) : SlabAllocator × Nat :=
  let obj := (z.slab a).freelist
  if obj = 0 then (z, 0)
  else if z.mem.mark obj ≠ slabMagic then (z, 0)
  else
    (z.modSlab a fun s =>
      { s with freelist := z.mem.link obj, inuse := inc32 s.inuse, free := dec32 s.free }, obj)

def slabFreeObj (z : SlabAllocator) (a obj : Nat) : SlabAllocator :=
  let z := { z with mem := putObj z.mem obj (z.slab a).freelist }
  z.modSlab a fun s => { s with freelist := obj, inuse := dec32 s.inuse, free := inc32 s.free }

def moveSlab (z : SlabAllocator) (c : Nat) (src dst : SlabList) (a : Nat) : SlabAllocator :=
  let z :=
    if (z.slab a).prev ≠ 0 then
      z.modSlab (z.slab a).prev fun s => { s with next := (z.slab a).next }
    else z.setHead c src (z.slab a).next
  let z :=
    if (z.slab a).next ≠ 0 then
      z.modSlab (z.slab a).next fun s => { s with prev := (z.slab a).prev }
    else z
  let z := z.modSlab a fun s => { s with next := (z.cache c).head dst, prev := 0 }
  let z :=
    if (z.cache c).head dst ≠ 0 then
      z.modSlab ((z.cache c).head dst) fun s => { s with prev := a }
    else z
  z.setHead c dst a

/-! ## Objects -/

/-- The slab `cache_alloc` takes from, with a new one from the buddy allocator
where there is no other; 0 if there is none. -/
def pickSlab (z : SlabAllocator) (c : Nat) (buddy : Option SlabMem) : SlabAllocator × Nat :=
  let slab := (z.cache c).head .slabsPartial
  if slab ≠ 0 then (z, slab)
  else
    let slab := (z.cache c).head .slabsEmpty
    if slab ≠ 0 then (z.moveSlab c .slabsEmpty .slabsPartial slab, slab)
    else
      let (z, slab) := z.slabCreate c buddy
      if slab = 0 then (z, 0)
      else
        let first := (z.cache c).head .slabsPartial
        let z := z.modSlab slab fun s => { s with next := first }
        let z := if first ≠ 0 then z.modSlab first fun s => { s with prev := slab } else z
        let z := z.setHead c .slabsPartial slab
        (z.modCache c fun s => { s with numSlabs := inc32 s.numSlabs }, slab)

/-- `cache_alloc`; the object is 0 if there is none. -/
def cacheAlloc (z : SlabAllocator) (c : Nat) (buddy : Option SlabMem) : SlabAllocator × Nat :=
  if c = 0 then (z, 0)
  else
    let (z, slab) := z.pickSlab c buddy
    if slab = 0 then (z, 0)
    else
      let (z, obj) := z.slabAllocObj slab
      if obj = 0 then (z, 0)
      else
        let z := z.modCache c fun s =>
          { s with numActiveObjs := inc32 s.numActiveObjs, numFreeObjs := dec32 s.numFreeObjs }
        let z := if (z.slab slab).free = 0 then z.moveSlab c .slabsPartial .slabsFull slab else z
        (z, obj)

/-- The search of `cache_free` along one list; 0 if no slab holds `obj`. -/
def findSlabLoop (z : SlabAllocator) (obj : Nat) : Nat → Nat → Option Nat
  | 0, _ => none
  | fuel + 1, current =>
      if current = 0 then some 0
      else if (z.slab current).mem ≤ obj ∧
          obj < add32 (z.slab current).mem (blockSize (z.slab current).order) then some current
      else findSlabLoop z obj fuel (z.slab current).next

def findSlab (z : SlabAllocator) (c obj : Nat) : Option Nat := do
  let slab ← z.findSlabLoop obj turns ((z.cache c).head .slabsFull)
  if slab ≠ 0 then some slab else z.findSlabLoop obj turns ((z.cache c).head .slabsPartial)

def cacheFree (z : SlabAllocator) (c obj : Nat) : Option SlabAllocator :=
  if c = 0 ∨ obj = 0 then some z
  else do
    let slab ← z.findSlab c obj
    if slab = 0 then some z
    else
      let wasFull : Bool := (z.slab slab).free = 0
      let z := z.slabFreeObj slab obj
      let z := z.modCache c fun s =>
        { s with numActiveObjs := dec32 s.numActiveObjs, numFreeObjs := inc32 s.numFreeObjs }
      if wasFull then some (z.moveSlab c .slabsFull .slabsPartial slab)
      else if (z.slab slab).free = (z.cache c).numObjsPerSlab then
        some (z.moveSlab c .slabsPartial .slabsEmpty slab)
      else some z

/-! ## Reaping -/

/-- The inner loop of `cache_reap`. -/
def reapLoop (c : Nat) : Nat → SlabAllocator → Option SlabAllocator
  | 0, _ => none
  | fuel + 1, z =>
      let slab := (z.cache c).head .slabsEmpty
      if slab ≠ 0 ∧ 1 < (z.cache c).numSlabs then
        let z := z.setHead c .slabsEmpty (z.slab slab).next
        let first := (z.cache c).head .slabsEmpty
        let z := if first ≠ 0 then z.modSlab first fun s => { s with prev := 0 } else z
        reapLoop c fuel (z.slabDestroy c slab)
      else some z

def reapCaches : Nat → SlabAllocator → Nat → Option SlabAllocator
  | 0, _, _ => none
  | fuel + 1, z, c =>
      if c = 0 then some z
      else do
        let z ← reapLoop c turns z
        reapCaches fuel z (z.cache c).next

def cacheReap (z : SlabAllocator) : Option SlabAllocator := reapCaches turns z z.cacheChain

/-- `init`, before it creates its size caches. -/
def init (mem : Memory) : SlabAllocator where
  cacheChain := 0
  cache := fun _ => newCache 0 0 0 0
  slab := fun _ => ⟨0, 0, 0, 0, 0, 0, 0, 0, 0⟩
  slabs := []
  mem := mem

end SlabAllocator

/-! ## Clients -/

/-- The allocator, the caches there are, and the objects clients hold, each with
its cache. -/
structure SlabHeap where
  slab : SlabAllocator
  caches : List Nat
  live : List (Nat × Nat)

inductive SlabCall
  | create (size align flags : UInt32) (cache : Option Nat)
  | alloc (cache : Nat) (buddy : Option SlabAllocator.SlabMem)
  | free (cache obj : Nat)
  | reap
  | write (addr : Nat) (byte : UInt8)

namespace SlabHeap

open SlabAllocator

/-- The state after a call; `none` if a loop of it does not end. -/
def step (h : SlabHeap) : SlabCall → Option SlabHeap
  | .create size align flags cache =>
      some { h with
        slab := h.slab.cacheCreate size align flags cache
        caches := cache.toList ++ h.caches }
  | .alloc c buddy =>
      let r := h.slab.cacheAlloc c buddy
      some { h with slab := r.1, live := if r.2 = 0 then h.live else (c, r.2) :: h.live }
  | .free c obj => do
      let z ← h.slab.cacheFree c obj
      some { h with slab := z, live := h.live.erase (c, obj) }
  | .reap => do
      let z ← h.slab.cacheReap
      some { h with slab := z }
  | .write addr byte => some { h with slab := { h.slab with mem := h.slab.mem.store8 addr byte } }

/-- The bytes of a slab's memory. -/
def slabLen (z : SlabAllocator) (p : Nat × Nat) : Nat := blockSize (z.slab p.2).order

/-- What the buddy allocator may answer `slab_create`: nothing, or a new
descriptor and a region of `MIN_BLOCK_SIZE << gfp_order` bytes that overlaps no
region in use.  Both ends of the region are addresses, neither of them null. -/
def SlabMemOk (z : SlabAllocator) (c : Nat) : Option SlabMem → Prop
  | none => True
  | some b => b.slab ≠ 0 ∧ b.slab ∉ z.slabs.map Prod.snd ∧ b.mem ≠ 0 ∧
      b.mem + blockSize (z.cache c).gfpOrder < wordSize ∧
      ∀ p ∈ z.slabs, b.mem + blockSize (z.cache c).gfpOrder ≤ (z.slab p.2).mem ∨
        (z.slab p.2).mem + slabLen z p ≤ b.mem

/-- Caches are made with room for `struct slab_obj` in an object and for at least
one object in a slab; clients allocate from caches that exist, free what they
hold to the cache it came from, and write into what they hold or outside all
slabs. -/
def Allowed (h : SlabHeap) : SlabCall → Prop
  | .create size align _ cache => (∀ c ∈ cache, c ≠ 0 ∧ c < wordSize ∧ c ∉ h.caches) ∧
      sizeofSlabObj ≤ roundUp size align ∧ 0 < (newCache 0 size align 0).numObjsPerSlab
  | .alloc c buddy => c ∈ h.caches ∧ SlabMemOk h.slab c buddy
  | .free c obj => (c, obj) ∈ h.live
  | .reap => True
  | .write addr _ =>
      (∃ l ∈ h.live, l.2 ≤ addr ∧ addr < l.2 + (h.slab.cache l.1).objSize) ∨
      ∀ p ∈ h.slab.slabs, addr < (h.slab.slab p.2).mem ∨
        (h.slab.slab p.2).mem + slabLen h.slab p ≤ addr

/-- The heap before any cache is made. -/
def start (mem : Memory) : SlabHeap := { slab := init mem, caches := [], live := [] }

instance (z : SlabAllocator) (c : Nat) : (b : Option SlabMem) → Decidable (SlabMemOk z c b)
  | none => isTrue True.intro
  | some b => inferInstanceAs (Decidable (b.slab ≠ 0 ∧ b.slab ∉ z.slabs.map Prod.snd ∧ b.mem ≠ 0 ∧
      b.mem + blockSize (z.cache c).gfpOrder < wordSize ∧
      ∀ p ∈ z.slabs, b.mem + blockSize (z.cache c).gfpOrder ≤ (z.slab p.2).mem ∨
        (z.slab p.2).mem + slabLen z p ≤ b.mem))

instance (h : SlabHeap) : (c : SlabCall) → Decidable (h.Allowed c)
  | .create size align _ cache => inferInstanceAs (Decidable ((∀ c ∈ cache, c ≠ 0 ∧ c < wordSize ∧ c ∉ h.caches) ∧
      sizeofSlabObj ≤ roundUp size align ∧ 0 < (newCache 0 size align 0).numObjsPerSlab))
  | .alloc c buddy => inferInstanceAs (Decidable (c ∈ h.caches ∧ SlabMemOk h.slab c buddy))
  | .free c obj => inferInstanceAs (Decidable ((c, obj) ∈ h.live))
  | .reap => isTrue True.intro
  | .write addr _ => inferInstanceAs (Decidable
      ((∃ l ∈ h.live, l.2 ≤ addr ∧ addr < l.2 + (h.slab.cache l.1).objSize) ∨
      ∀ p ∈ h.slab.slabs, addr < (h.slab.slab p.2).mem ∨
        (h.slab.slab p.2).mem + slabLen h.slab p ≤ addr))

end SlabHeap

end KmOS
