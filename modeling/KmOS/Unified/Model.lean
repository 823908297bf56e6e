/-
# `KmOS.Unified.Model` — `UnifiedAllocator` and what its sub-allocators check

`kmalloc` and `kfree` go through `UnifiedAllocator`, which picks one of five
sub-allocators for a request and has to find it again when the pointer comes
back.  `alloc` picks by mode, policy mask, size class and flags, and falls back
to the buddy allocator when the pick has nothing to give.  `free` knows the
pick only if debug tracking recorded it.

**The sub-allocators** are modelled as far as the two directions meet.  Where a
pointer comes from is theirs to decide, so each call's answer is an input
(`Answers`, 0 for null).  What they keep is which pointers they count as
allocated, and the words and tables their `free` looks at before it accepts a
pointer: the magic of the SLOB block in front of it, the magic word that slab
and SLUB keep inside the object, which size caches exist, and which addresses
lie in SLOB and SLUB pages.

**What is left out.**  `alloc_stats`, which is only printed, and the field
`timestamp` of a debug record, which is always 0.
-/
import KmOS.Slob.Model

namespace KmOS

/-! ## Constants of `unified_alloc.h`, `slob.h`, `slab.h` and `slub.h` -/

def policyBuddy : Nat := 0x01
def policySlab : Nat := 0x02
def policySlob : Nat := 0x04
def policySlub : Nat := 0x08
def policyStack : Nat := 0x10
def policyAuto : Nat := 0x20

def flagKernel : Nat := 0x01
def flagDma : Nat := 0x04
def flagZero : Nat := 0x10
def flagTemp : Nat := 0x20
def flagScoped : Nat := 0x40

def slobMagicWord : Nat := 0x510B1234
def slabMagicWord : Nat := 0x5AB1234
def slubMagicWord : Nat := 0x51B41234

/-- `size_cache_sizes` of the slab allocator. -/
def slabCacheSizes : List Nat :=
  [8, 16, 32, 64, 128, 256, 512, 1024, 2048, 4096, 8192, 16384]

/-- `cache_sizes` of the SLUB allocator. -/
def slubCacheSizes : List Nat :=
  [16, 32, 64, 96, 128, 192, 256, 384, 512, 768, 1024, 1536, 2048, 3072, 4096, 8192]

/-- A bit of a `u32` mask is set. -/
def hasBit (mask bit : Nat) : Bool := mask &&& bit ≠ 0

/-! ## Sub-allocators -/

/-- The allocator a pointer comes from. -/
inductive Producer
  | buddy
  | slab
  | slob
  | slub
  | stack
  deriving DecidableEq

/-- What the sub-allocators answer to the next request; 0 is null. -/
structure Answers where
  slob : Nat
  slab : Nat
  slub : Nat
  stack : Nat
  buddy : Nat → Nat

/-- What the sub-allocators keep about the pointers they have given out. -/
structure SubAllocators where
  /-- Pointers SLOB counts as allocated. -/
  slobOut : Nat → Bool
  /-- `magic` of the `slob_block` in front of a pointer. -/
  slobMagic : Nat → Nat
  /-- The block in front of a pointer lies in a SLOB page. -/
  slobPages : Nat → Bool
  /-- Objects the slab allocator counts as allocated, with the index of the
  size cache each belongs to. -/
  slabOut : Nat → Option Nat
  /-- `size_caches[i]` of the slab allocator is not null. -/
  slabCaches : Nat → Bool
  slubOut : Nat → Bool
  slubCaches : Nat → Bool
  /-- The address lies in a partial or full page of some SLUB cache. -/
  slubPages : Nat → Bool
  /-- The second word of an object: `slab_obj::magic`, `slub_object::magic`. -/
  objMagic : Nat → Nat
  buddyOut : Nat → Bool

namespace SubAllocators

/-- `p` is counted as allocated by the allocator `x`. -/
def Out (s : SubAllocators) : Producer → Nat → Prop
  | .buddy, p => s.buddyOut p = true
  | .slab, p => (s.slabOut p).isSome = true
  | .slob, p => s.slobOut p = true
  | .slub, p => s.slubOut p = true
  | .stack, _ => False

instance (s : SubAllocators) : (x : Producer) → (p : Nat) → Decidable (s.Out x p)
  | .buddy, p => inferInstanceAs (Decidable (s.buddyOut p = true))
  | .slab, p => inferInstanceAs (Decidable ((s.slabOut p).isSome = true))
  | .slob, p => inferInstanceAs (Decidable (s.slobOut p = true))
  | .slub, p => inferInstanceAs (Decidable (s.slubOut p = true))
  | .stack, _ => isFalse (fun h => h)

/-- `find_size_cache`: the first cache large enough, if it is not null. -/
def findSizeCache (sizes : List Nat) (caches : Nat → Bool) (size : Nat) : Option Nat :=
  match sizes.findIdx? (fun c => size ≤ c) with
  | some i => if caches i then some i else none
  | none => none

/-! ### Allocation -/

/-- `BuddyAllocator::alloc`. -/
def buddyAlloc (s : SubAllocators) (ans : Answers) (size : Nat) : SubAllocators × Nat :=
  if size = 0 ∨ ans.buddy size = 0 then (s, 0)
  else ({ s with buddyOut := Function.update s.buddyOut (ans.buddy size) true }, ans.buddy size)

/-- `SLOBAllocator::alloc`. -/
def slobAlloc (s : SubAllocators) (ans : Answers) (size : Nat) : SubAllocators × Nat :=
  if size = 0 ∨ slobMaxAlloc < size ∨ ans.slob = 0 then (s, 0)
  else
    ({ s with
       slobOut := Function.update s.slobOut ans.slob true
       slobMagic := Function.update s.slobMagic ans.slob slobMagicWord
       slobPages := Function.update s.slobPages ans.slob true }, ans.slob)

/-- `SlabAllocator::kmem_cache_alloc`. -/
def kmemCacheAlloc (s : SubAllocators) (ans : Answers) (size : Nat) : SubAllocators × Nat :=
  match findSizeCache slabCacheSizes s.slabCaches size with
  | none => (s, 0)
  | some i =>
      if ans.slab = 0 then (s, 0)
      else
        ({ s with
           slabOut := Function.update s.slabOut ans.slab (some i)
           objMagic := Function.update s.objMagic ans.slab slabMagicWord }, ans.slab)

/-- `SLUBAllocator::alloc`, with the allocator that served the request. -/
def slubAlloc (s : SubAllocators) (ans : Answers) (size : Nat) : SubAllocators × Nat × Producer :=
  if size = 0 then (s, 0, .slub)
  else
    match findSizeCache slubCacheSizes s.slubCaches size with
    | none =>
        let (s, p) := s.buddyAlloc ans size
        (s, p, .buddy)
    | some _ =>
        if ans.slub = 0 then (s, 0, .slub)
        else
          ({ s with
             slubOut := Function.update s.slubOut ans.slub true
             slubPages := Function.update s.slubPages ans.slub true
             objMagic := Function.update s.objMagic ans.slub slubMagicWord }, ans.slub, .slub)

/-! ### Freeing -/

/-- `BuddyAllocator::free`.  Its header check passes for the blocks that are
out and for no others. -/
def buddyFree (s : SubAllocators) (p : Nat) : SubAllocators :=
  if p = 0 then s else { s with buddyOut := Function.update s.buddyOut p false }

/-- `SLOBAllocator::free`. -/
def slobFree (s : SubAllocators) (p : Nat) : SubAllocators :=
  if p = 0 then s
  else if s.slobMagic p ≠ slobMagicWord then s
  else if s.slobPages p = false then s
  else
    { s with
      slobOut := Function.update s.slobOut p false
      slobMagic := Function.update s.slobMagic p 0 }

/-- The cache `kmem_cache_free` tries: the first that is not null, and no
other. -/
def firstSlabCache (s : SubAllocators) : Option Nat :=
  (List.range 12).find? s.slabCaches

/-- `SlabAllocator::kmem_cache_free`; `cache_free` finds an object only in a
slab of the cache it is given. -/
def kmemCacheFree (s : SubAllocators) (p : Nat) : SubAllocators :=
  if p = 0 then s
  else if s.objMagic p ≠ slabMagicWord then s
  else
    match s.firstSlabCache with
    | none => s
    | some i =>
        if s.slabOut p = some i then { s with slabOut := Function.update s.slabOut p none } else s

/-- `SLUBAllocator::free`, with the allocators that receive the pointer: an
address in no SLUB page goes on to the buddy allocator. -/
def slubFree (s : SubAllocators) (p : Nat) : SubAllocators × List Producer :=
  if p = 0 then (s, [.slub])
  else if s.slubPages p then
    if s.objMagic p ≠ slubMagicWord then (s, [.slub])
    else ({ s with slubOut := Function.update s.slubOut p false }, [.slub])
  else (s.buddyFree p, [.slub, .buddy])

end SubAllocators

/-! ## The unified allocator -/

/-- `enum alloc_type`. -/
inductive AllocType
  | tiny
  | small
  | medium
  | large
  | huge
  deriving DecidableEq

/-- The value of the enumerator. -/
def AllocType.toNat : AllocType → Nat
  | .tiny => 0
  | .small => 1
  | .medium => 2
  | .large => 3
  | .huge => 4

/-- `enum system_mode`. -/
inductive SystemMode
  | embedded
  | desktop
  | server
  | realtime
  deriving DecidableEq

/-- `struct allocation_metadata`. -/
structure AllocationMetadata where
  size : Nat
  flags : Nat
  allocatorUsed : Nat
  originalPtr : Nat
  deriving DecidableEq

/-- The routing state of `UnifiedAllocator`.  `debugTable` is `none` for a null
table, else its first `debug_entries` records. -/
structure UnifiedAllocator where
  currentMode : SystemMode
  policyMask : Nat
  debugTracking : Bool
  debugTable : Option (List AllocationMetadata)
  debugTableSize : Nat

/-- `get_alloc_type`. -/
def getAllocType (size : Nat) : AllocType :=
  if size < 64 then .tiny
  else if size < 512 then .small
  else if size < 4096 then .medium
  else if size < 65536 then .large
  else .huge

namespace UnifiedAllocator

def init (mode : SystemMode) : UnifiedAllocator :=
  { currentMode := mode
    policyMask :=
      match mode with
      | .embedded => policySlob ||| policyBuddy ||| policyStack
      | .desktop => policySlab ||| policyBuddy ||| policyStack ||| policyAuto
      | .server => policySlub ||| policyBuddy ||| policyStack ||| policyAuto
      | .realtime => policySlab ||| policyBuddy ||| policyStack
    debugTracking := false
    debugTable := none
    debugTableSize := 0 }

/-- `enable_debug_tracking`; `table` is what the buddy allocator answers to the
request for the table. -/
def enableDebugTracking (u : UnifiedAllocator) (table : Nat) : UnifiedAllocator :=
  match u.debugTable with
  | some _ => { u with debugTracking := true }
  | none =>
      { u with
        debugTableSize := 1024
        debugTable := if table = 0 then none else some []
        debugTracking := true }

/-- `disable_debug_tracking`. -/
def disableDebugTracking (u : UnifiedAllocator) : UnifiedAllocator :=
  { u with debugTracking := false }

def selectAllocator (u : UnifiedAllocator) (size flags : Nat) : Nat :=
  let type := (getAllocType size).toNat
  if hasBit flags (flagTemp ||| flagScoped) && hasBit u.policyMask policyStack then policyStack
  else if hasBit flags flagDma && !hasBit u.policyMask policyBuddy then policyBuddy
  else
    match u.currentMode with
    | .embedded =>
        if type ≤ AllocType.small.toNat ∧ hasBit u.policyMask policySlob then policySlob
        else policyBuddy
    | .desktop =>
        if type ≤ AllocType.medium.toNat ∧ hasBit u.policyMask policySlab then policySlab
        else policyBuddy
    | .server =>
        if type ≤ AllocType.medium.toNat ∧ hasBit u.policyMask policySlub then policySlub
        else policyBuddy
    | .realtime =>
        if type ≤ AllocType.small.toNat ∧ hasBit u.policyMask policySlab then policySlab
        else policyBuddy

/-- The request `internal_alloc` makes of the buddy allocator. -/
def buddyRequest (size : Nat) : Nat := blockSize (BuddyZone.getOrder size)

/-- The buddy allocator asked by `internal_alloc`. -/
def askBuddy (s : SubAllocators) (ans : Answers) (size : Nat) : SubAllocators × Nat × Producer :=
  let (s, p) := s.buddyAlloc ans (buddyRequest size)
  (s, p, .buddy)

/-- The `switch` of `internal_alloc`. -/
def askPreferred (s : SubAllocators) (ans : Answers) (size preferred : Nat) :
    SubAllocators × Nat × Producer :=
  if preferred = policySlob then
    let (s, p) := s.slobAlloc ans size
    (s, p, .slob)
  else if preferred = policySlab then
    let (s, p) := s.kmemCacheAlloc ans size
    (s, p, .slab)
  else if preferred = policySlub then s.slubAlloc ans size
  else if preferred = policyStack then (s, ans.stack, .stack)
  else askBuddy s ans size

/-- `internal_alloc`, with the allocator the pointer comes from. -/
def internalAlloc (s : SubAllocators) (ans : Answers) (size preferred : Nat) :
    SubAllocators × Nat × Producer :=
  let (s, p, x) := askPreferred s ans size preferred
  if p = 0 ∧ preferred ≠ policyBuddy then askBuddy s ans size else (s, p, x)

/-- `find_allocation`. -/
def findAllocation (u : UnifiedAllocator) (p : Nat) : Option AllocationMetadata :=
  (u.debugTable.getD []).find? (fun m => m.originalPtr = p)

/-- `track_allocation`. -/
def trackAllocation (u : UnifiedAllocator) (p size flags allocator : Nat) : UnifiedAllocator :=
  match u.debugTable with
  | none => u
  | some l =>
      if u.debugTableSize ≤ l.length then u
      else
        { u with
          debugTable := some (l ++ [
            { size := size
              flags := flags
              allocatorUsed := allocator
              originalPtr := p }]) }

/-- `untrack_allocation`: the last record moves into the place of the first one
for `p`. -/
def untrackAllocation (u : UnifiedAllocator) (p : Nat) : UnifiedAllocator :=
  match u.debugTable with
  | none => u
  | some l =>
      match l.findIdx? (fun m => m.originalPtr = p), l.getLast? with
      | some i, some last => { u with debugTable := some ((l.set i last).dropLast) }
      | _, _ => u

/-- The turns of the loop of `memset` and `memcpy` for a `u32` length: the
parameter is an `int`, and the loop turns while `i < n`. -/
def intTurns (n : Nat) : Nat := if n < 2147483648 then n else 0

/-- The word at offset 4 after `memset(p, 0, size)`. -/
def zeroedWord (word size : Nat) : Nat :=
  let k := min (intTurns size - 4) 4
  word / 256 ^ k * 256 ^ k

/-- `alloc`, with the allocator the pointer comes from. -/
def alloc (u : UnifiedAllocator) (s : SubAllocators) (ans : Answers) (size flags : Nat) :
    UnifiedAllocator × SubAllocators × Nat × Producer :=
  if size = 0 then (u, s, 0, .buddy)
  else
    let allocator := u.selectAllocator size flags
    let (s, p, x) := internalAlloc s ans size allocator
    if p = 0 then (u, s, 0, x)
    else
      let u := if u.debugTracking then u.trackAllocation p size flags allocator else u
      let s :=
        if hasBit flags flagZero then
          { s with objMagic := Function.update s.objMagic p (zeroedWord (s.objMagic p) size) }
        else s
      (u, s, p, x)

/-- `internal_free`, with the allocators that receive the pointer. -/
def internalFree (s : SubAllocators) (p hint : Nat) : SubAllocators × List Producer :=
  if hint = policySlob then (s.slobFree p, [.slob])
  else if hint = policySlab then (s.kmemCacheFree p, [.slab])
  else if hint = policySlub then s.slubFree p
  else
    -- the source tests the pointer, not the outcome, before each further attempt
    let s := s.slobFree p
    if p = 0 then
      let s := s.kmemCacheFree p
      if p = 0 then
        let (s, calls) := s.slubFree p
        if p = 0 then (s.buddyFree p, [.slob, .slab] ++ calls ++ [.buddy])
        else (s, [.slob, .slab] ++ calls)
      else (s, [.slob, .slab])
    else (s, [.slob])

/-- `free`, with the allocators that receive the pointer. -/
def free (u : UnifiedAllocator) (s : SubAllocators) (p : Nat) :
    UnifiedAllocator × SubAllocators × List Producer :=
  if p = 0 then (u, s, [])
  else
    match if u.debugTracking then u.findAllocation p else none with
    | some m =>
        let (s, calls) := internalFree s p m.allocatorUsed
        (u.untrackAllocation p, s, calls)
    | none =>
        let (s, calls) := internalFree s p 0
        (u, s, calls)

/-- `realloc`, with the length it hands to `memcpy`. -/
def realloc (u : UnifiedAllocator) (s : SubAllocators) (ans : Answers) (p newSize : Nat) :
    UnifiedAllocator × SubAllocators × Nat × Nat :=
  if p = 0 then
    let (u, s, q, _) := u.alloc s ans newSize 0
    (u, s, q, 0)
  else if newSize = 0 then
    let (u, s, _) := u.free s p
    (u, s, 0, 0)
  else
    let oldSize :=
      match u.findAllocation p with
      | some m => m.size
      | none => 0
    let (u, s, q, _) := u.alloc s ans newSize 0
    if q = 0 then (u, s, 0, 0)
    else
      let (u, s, _) := u.free s p
      (u, s, q, min oldSize newSize)

/-- `calloc`; `none` is the division by zero. -/
def calloc (u : UnifiedAllocator) (s : SubAllocators) (ans : Answers) (count size : Nat) :
    Option (UnifiedAllocator × SubAllocators × Nat × Producer) :=
  let totalSize := count * size % 4294967296
  if count = 0 then none
  else if totalSize / count ≠ size then some (u, s, 0, .buddy)
  else some (u.alloc s ans totalSize flagZero)

end UnifiedAllocator

end KmOS
