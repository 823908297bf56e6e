/-
# `KmOS.Buddy.Model` — the buddy allocator, over byte memory

`BuddyAllocator` keeps its blocks' headers inside the memory it hands out: a
block of order `k` is `4096 << k` bytes, the first twenty of which are a
`struct buddy_block`.  The model therefore runs over bytes.  A header is read
and written field by field at the offsets the compiler gives them on the
32-bit target, and a client's store into its own block lands in the same
memory.

Pointers are addresses, null is 0, and arithmetic on pointers and on `u32` is
taken modulo `2 ^ 32` wherever it could wrap.

**What is left out.**  The text `init`, `free` and `print_stats` print, and
the local `max_order` of `init`, which is computed and never read.
-/
import KmOS.Lib.Bytes
import KmOS.Lib.Run

namespace KmOS

/-! ## Constants and layout of `buddy.h` -/

def maxOrder : Nat := 11
def minBlockSize : Nat := 4096
def buddyMagic : Nat := 0xBDD1234

/-- `sizeof(struct buddy_block)`. -/
def sizeofBuddyBlock : Nat := 20

/-- The range of `u32` and of a pointer. -/
def wordSize : Nat := 4294967296

/-- `x++` on a `u32`. -/
def inc32 (x : Nat) : Nat := (x + 1) % wordSize

/-- `x--` on a `u32`. -/
def dec32 (x : Nat) : Nat := if x = 0 then wordSize - 1 else x - 1

/-- `a - b` on pointers or `u32`s. -/
def sub32 (a b : Nat) : Nat := (a + (wordSize - b)) % wordSize

/-- `(1U << order) * MIN_BLOCK_SIZE`. -/
def blockSize (order : Nat) : Nat := 2 ^ order * minBlockSize

/-- `struct buddy_zone`, with the memory its blocks lie in. -/
structure BuddyZone where
  freeLists : Nat → Nat
  freeBlocks : Nat → Nat
  memoryStart : Nat
  memorySize : Nat
  totalBlocks : Nat
  allocatedBlocks : Nat
  mem : Memory

namespace BuddyZone

/-! ## Header fields -/

def next (z : BuddyZone) (block : Nat) : Nat := z.mem.load32 block
def prev (z : BuddyZone) (block : Nat) : Nat := z.mem.load32 (block + 4)
def order (z : BuddyZone) (block : Nat) : Nat := z.mem.load32 (block + 8)
def magic (z : BuddyZone) (block : Nat) : Nat := z.mem.load32 (block + 12)
def allocated (z : BuddyZone) (block : Nat) : UInt8 := z.mem (block + 16)

def setNext (z : BuddyZone) (block v : Nat) : BuddyZone :=
  { z with mem := z.mem.store32 block v }
def setPrev (z : BuddyZone) (block v : Nat) : BuddyZone :=
  { z with mem := z.mem.store32 (block + 4) v }
def setOrder (z : BuddyZone) (block v : Nat) : BuddyZone :=
  { z with mem := z.mem.store32 (block + 8) v }
def setMagic (z : BuddyZone) (block v : Nat) : BuddyZone :=
  { z with mem := z.mem.store32 (block + 12) v }
def setAllocated (z : BuddyZone) (block : Nat) (v : UInt8) : BuddyZone :=
  { z with mem := z.mem.store8 (block + 16) v }

/-- The five stores that make a header for a free block. -/
def initHeader (z : BuddyZone) (block order : Nat) : BuddyZone :=
  ((((z.setNext block 0).setPrev block 0).setOrder block order).setMagic block
    buddyMagic).setAllocated block 0

/-! ## Free lists -/

def addToFreeList (z : BuddyZone) (block order : Nat) : BuddyZone :=
  let head := z.freeLists order
  let z := (z.setNext block head).setPrev block 0
  let z := if head ≠ 0 then z.setPrev head block else z
  { z with
    freeLists := Function.update z.freeLists order block
    freeBlocks := Function.update z.freeBlocks order (inc32 (z.freeBlocks order)) }

def removeFromFreeList (z : BuddyZone) (block order : Nat) : BuddyZone :=
  let z :=
    if z.prev block ≠ 0 then z.setNext (z.prev block) (z.next block)
    else { z with freeLists := Function.update z.freeLists order (z.next block) }
  let z :=
    if z.next block ≠ 0 then z.setPrev (z.next block) (z.prev block) else z
  { z with freeBlocks := Function.update z.freeBlocks order (dec32 (z.freeBlocks order)) }

/-! ## Initialisation -/

/-- `while ((1U << (order + 1)) * MIN_BLOCK_SIZE <= size && order < MAX_ORDER)
order++`, with `fuel` at least `MAX_ORDER - order`. -/
def fitOrder (size : Nat) : Nat → Nat → Nat
  | 0, order => order
  | fuel + 1, order =>
      if blockSize (order + 1) ≤ size ∧ order < maxOrder then fitOrder size fuel (order + 1)
      else order

/-- The block-laying loop of `init`; each turn uses up at least one page. -/
def initLoop : Nat → BuddyZone → Nat → Nat → BuddyZone
  | 0, z, _, _ => z
  | fuel + 1, z, currentAddr, currentSize =>
      if minBlockSize ≤ currentSize then
        let order := fitOrder currentSize maxOrder 0
        let z := (z.initHeader currentAddr order).addToFreeList currentAddr order
        initLoop fuel z (currentAddr + blockSize order) (currentSize - blockSize order)
      else z

/-- `init`: the zone over whatever bytes `mem` holds. -/
def init (mem : Memory) (memoryStart memorySize : Nat) : BuddyZone :=
  initLoop (memorySize / minBlockSize)
    { freeLists := fun _ => 0
      freeBlocks := fun _ => 0
      memoryStart := memoryStart
      memorySize := memorySize
      totalBlocks := memorySize / minBlockSize
      allocatedBlocks := 0
      mem := mem }
    memoryStart memorySize

/-! ## Allocation -/

/-- The loop of `get_order`. -/
def getOrderLoop (size : Nat) : Nat → Nat → Nat → Nat
  | 0, order, _ => order
  | fuel + 1, order, blockSize =>
      if blockSize < size ∧ order < maxOrder then
        getOrderLoop size fuel (order + 1) (blockSize * 2 % wordSize)
      else order

def getOrder (size : Nat) : Nat := getOrderLoop size maxOrder 0 minBlockSize

/-- The search of `alloc_order`: the first order from `current_order` on with a
free block, or `MAX_ORDER + 1`. -/
def findFree (z : BuddyZone) : Nat → Nat → Nat
  | 0, currentOrder => currentOrder
  | fuel + 1, currentOrder =>
      if currentOrder ≤ maxOrder ∧ z.freeLists currentOrder = 0 then
        findFree z fuel (currentOrder + 1)
      else currentOrder

def splitBlock (z : BuddyZone) (block : Nat) : Nat → Nat → BuddyZone
  | 0, _ => z
  | order + 1, targetOrder =>
      if targetOrder < order + 1 then
        let buddy := block + blockSize order
        let z := (z.initHeader buddy order).addToFreeList buddy order
        splitBlock (z.setOrder block order) block order targetOrder
      else z

/-- `alloc_order`; the pointer it returns is `none` for null. -/
def allocOrder (z : BuddyZone) (order : Nat) : BuddyZone × Option Nat :=
  if maxOrder < order then (z, none)
  else
    let currentOrder := z.findFree (maxOrder + 1) order
    if maxOrder < currentOrder then (z, none)
    else
      let block := z.freeLists currentOrder
      let z := z.removeFromFreeList block currentOrder
      let z := if order < currentOrder then z.splitBlock block currentOrder order else z
      let z := z.setAllocated block 1
      ({ z with allocatedBlocks := inc32 z.allocatedBlocks }, some (block + sizeofBuddyBlock))

def alloc (z : BuddyZone) (size : Nat) : BuddyZone × Option Nat :=
  if size = 0 then (z, none) else z.allocOrder (getOrder size)

/-! ## Freeing -/

/-- The address `find_buddy` computes. -/
def buddyAddr (z : BuddyZone) (block order : Nat) : Nat :=
  let blockIndex := sub32 block z.memoryStart / blockSize order
  let buddyIndex := blockIndex ^^^ 1
  (z.memoryStart + buddyIndex * blockSize order) % wordSize

/-- The buddy's address lies below the end of the zone, so its header is read. -/
def buddyInZone (z : BuddyZone) (block order : Nat) : Prop :=
  z.buddyAddr block order < (z.memoryStart + z.memorySize) % wordSize

instance (z : BuddyZone) (block order : Nat) : Decidable (z.buddyInZone block order) :=
  inferInstanceAs (Decidable (_ < _))

def findBuddy (z : BuddyZone) (block order : Nat) : Option Nat :=
  let buddy := z.buddyAddr block order
  if z.buddyInZone block order then
    if z.magic buddy = buddyMagic ∧ z.allocated buddy = 0 ∧ z.order buddy = order then some buddy
    else none
  else none

/-- One turn of the loop of `coalesce_block`, on a buddy that was found. -/
def mergeBuddy (z : BuddyZone) (block buddy order : Nat) : BuddyZone × Nat :=
  let z := z.removeFromFreeList buddy order
  let block := if buddy < block then buddy else block
  (z.setOrder block (order + 1), block)

/-- `coalesce_block`, with `fuel = MAX_ORDER - order`. -/
def coalesceBlock : Nat → BuddyZone → Nat → Nat → BuddyZone
  | 0, z, block, order => z.addToFreeList block order
  | fuel + 1, z, block, order =>
      match z.findBuddy block order with
      | none => z.addToFreeList block order
      | some buddy =>
          let (z, block) := z.mergeBuddy block buddy order
          coalesceBlock fuel z block (order + 1)

def freeOrder (z : BuddyZone) (ptr order : Nat) : BuddyZone :=
  if ptr = 0 ∨ maxOrder < order then z
  else
    let block := sub32 ptr sizeofBuddyBlock
    let z := z.setAllocated block 0
    let z := { z with allocatedBlocks := dec32 z.allocatedBlocks }
    coalesceBlock (maxOrder - order) z block order

def free (z : BuddyZone) (ptr : Nat) : BuddyZone :=
  if ptr = 0 then z
  else
    let block := sub32 ptr sizeofBuddyBlock
    if z.magic block ≠ buddyMagic ∨ z.allocated block = 0 then z
    else z.freeOrder ptr (z.order block)

/-! ## The headers `find_buddy` looks at -/

/-- What `find_buddy` reads of a header. -/
structure HeaderRead where
  addr : Nat
  magic : Nat
  allocated : UInt8
  order : Nat
  deriving DecidableEq

/-- The header `find_buddy(block, order)` reads, if it reads one. -/
def headerRead (z : BuddyZone) (block order : Nat) : List HeaderRead :=
  let buddy := z.buddyAddr block order
  if z.buddyInZone block order then
    [{ addr := buddy
       magic := z.magic buddy
       allocated := z.allocated buddy
       order := z.order buddy }]
  else []

/-- The headers read by the calls of `find_buddy` that `coalesce_block` makes,
each as it stands at that call. -/
def coalesceReads : Nat → BuddyZone → Nat → Nat → List HeaderRead
  | 0, _, _, _ => []
  | fuel + 1, z, block, order =>
      z.headerRead block order ++
        match z.findBuddy block order with
        | none => []
        | some buddy =>
            let (z, block) := z.mergeBuddy block buddy order
            coalesceReads fuel z block (order + 1)

/-- The headers read while `ptr` is freed. -/
def freeReads (z : BuddyZone) (ptr : Nat) : List HeaderRead :=
  let block := sub32 ptr sizeofBuddyBlock
  let z' := z.setAllocated block 0
  coalesceReads (maxOrder - z.order block)
    { z' with allocatedBlocks := dec32 z'.allocatedBlocks } block (z.order block)

end BuddyZone

/-! ## Clients

A client holds the blocks it was given.  `live` records them, by address and by
the order that was asked for; the allocator never looks at it. -/

/-- The allocator together with the blocks its clients hold. -/
structure BuddyHeap where
  zone : BuddyZone
  live : List (Nat × Nat)

/-- What clients do. -/
inductive BuddyCall
  | alloc (size : Nat)
  | allocOrder (order : Nat)
  | free (ptr : Nat)
  | write (addr : Nat) (byte : UInt8)

namespace BuddyHeap

/-- The block behind a returned pointer is now the client's. -/
def grant (r : BuddyZone × Option Nat) (live : List (Nat × Nat)) (order : Nat) : BuddyHeap :=
  match r.2 with
  | none => { zone := r.1, live := live }
  | some ptr => { zone := r.1, live := (ptr - sizeofBuddyBlock, order) :: live }

def step (h : BuddyHeap) : BuddyCall → Option BuddyHeap
  | .alloc size => some (grant (h.zone.alloc size) h.live (BuddyZone.getOrder size))
  | .allocOrder order => some (grant (h.zone.allocOrder order) h.live order)
  | .free ptr => some
      { zone := h.zone.free ptr
        live := h.live.filter (fun b => b.1 + sizeofBuddyBlock ≠ ptr) }
  | .write addr byte => some { h with zone := { h.zone with mem := h.zone.mem.store8 addr byte } }

/-- Clients free what they hold and write where they may: inside the payload
`[block + sizeof(buddy_block), block + (4096 << order))` of a block they hold. -/
def Allowed (h : BuddyHeap) : BuddyCall → Prop
  | .alloc _ => True
  | .allocOrder _ => True
  | .free ptr => ∃ b ∈ h.live, ptr = b.1 + sizeofBuddyBlock
  | .write addr _ => ∃ b ∈ h.live, b.1 + sizeofBuddyBlock ≤ addr ∧ addr < b.1 + blockSize b.2

instance (h : BuddyHeap) : (c : BuddyCall) → Decidable (h.Allowed c)
  | .alloc _ => isTrue True.intro
  | .allocOrder _ => isTrue True.intro
  | .free ptr => inferInstanceAs (Decidable (∃ b ∈ h.live, ptr = b.1 + sizeofBuddyBlock))
  | .write addr _ => inferInstanceAs (Decidable
      (∃ b ∈ h.live, b.1 + sizeofBuddyBlock ≤ addr ∧ addr < b.1 + blockSize b.2))

/-- The heap `init` leaves. -/
def start (mem : Memory) (memoryStart memorySize : Nat) : BuddyHeap :=
  { zone := BuddyZone.init mem memoryStart memorySize, live := [] }

end BuddyHeap

end KmOS
