/-
# `KmOS.Slob.Model` — the SLOB allocator, over byte memory

`SLOBAllocator` takes pages of 4096 bytes from the buddy allocator and cuts
them into blocks.  The first 28 bytes of a page are its `struct slob_page`,
and every block, free or not, begins with a 16-byte `struct slob_block`; both
lie in the memory that is handed out, so the model runs over bytes.

A loop that follows links is given `turns` turns, as many as there are
addresses, and is `none` when it has not ended by then.

**What the buddy allocator does.**  A call that needs a page is given the
buddy's answer as an argument.  `held` records the pages that were handed over
and not yet given back; the allocator never looks at it.  Everything outside
those pages belongs to others, who write there as they like.

**What is left out.**  The text the functions print, and `print_stats`.
-/
import KmOS.Buddy.Model

namespace KmOS

/-! ## Constants and layout of `slob.h` -/

def slobMagic : Nat := 0x510B1234
def slobAlign : Nat := 8
def slobBlockSize : Nat := 4096
def slobMinAlloc : Nat := 16
def slobMaxAlloc : Nat := 512

/-- `sizeof(struct slob_block)`. -/
def sizeofSlobBlock : Nat := 16

/-- `sizeof(struct slob_page)`. -/
def sizeofSlobPage : Nat := 28

/-- `a + b` on `u32`s. -/
def add32 (a b : Nat) : Nat := (a + b) % wordSize

theorem add32_eq {x y : Nat} (h : x + y < wordSize) : add32 x y = x + y := Nat.mod_eq_of_lt h

theorem sub32_eq {x y : Nat} (h : y ≤ x) (hx : x < wordSize) : sub32 x y = x - y := by
  unfold sub32
  have : x + (wordSize - y) = (x - y) + wordSize := by omega
  rw [this, Nat.add_mod_right, Nat.mod_eq_of_lt (by omega)]

theorem inc32_eq {x : Nat} (h : x + 1 < wordSize) : inc32 x = x + 1 := Nat.mod_eq_of_lt h

theorem dec32_eq {x : Nat} (h : x ≠ 0) : dec32 x = x - 1 := if_neg h

/-- The turns a loop along links may take. -/
def turns : Nat := wordSize

/-- `class SLOBAllocator`, with the memory its pages lie in. -/
structure Slob where
  pages : Nat
  totalPages : Nat
  totalAllocated : Nat
  totalFree : Nat
  fragmentationThreshold : Nat
  held : List Nat
  mem : Memory

namespace Slob

/-! ## `struct slob_block` -/

def size (m : Memory) (block : Nat) : Nat := m.load32 (block + 0)
def magic (m : Memory) (block : Nat) : Nat := m.load32 (block + 4)
def next (m : Memory) (block : Nat) : Nat := m.load32 (block + 8)
def prev (m : Memory) (block : Nat) : Nat := m.load32 (block + 12)

def setSize (m : Memory) (block v : Nat) : Memory := m.store32 (block + 0) v
def setMagic (m : Memory) (block v : Nat) : Memory := m.store32 (block + 4) v
def setNext (m : Memory) (block v : Nat) : Memory := m.store32 (block + 8) v
def setPrev (m : Memory) (block v : Nat) : Memory := m.store32 (block + 12) v

/-! ## `struct slob_page` -/

def pageAddr (m : Memory) (page : Nat) : Nat := m.load32 (page + 0)
def totalSize (m : Memory) (page : Nat) : Nat := m.load32 (page + 4)
def freeSize (m : Memory) (page : Nat) : Nat := m.load32 (page + 8)
def fragmentation (m : Memory) (page : Nat) : Nat := m.load32 (page + 12)
def freeList (m : Memory) (page : Nat) : Nat := m.load32 (page + 16)
def pageNext (m : Memory) (page : Nat) : Nat := m.load32 (page + 20)
def pagePrev (m : Memory) (page : Nat) : Nat := m.load32 (page + 24)

def setPageAddr (m : Memory) (page v : Nat) : Memory := m.store32 (page + 0) v
def setTotalSize (m : Memory) (page v : Nat) : Memory := m.store32 (page + 4) v
def setFreeSize (m : Memory) (page v : Nat) : Memory := m.store32 (page + 8) v
def setFragmentation (m : Memory) (page v : Nat) : Memory := m.store32 (page + 12) v
def setFreeList (m : Memory) (page v : Nat) : Memory := m.store32 (page + 16) v
def setPageNext (m : Memory) (page v : Nat) : Memory := m.store32 (page + 20) v
def setPagePrev (m : Memory) (page v : Nat) : Memory := m.store32 (page + 24) v

/-! ## The free list of a page -/

def splitBlock (m : Memory) (block size : Nat) : Memory :=
  if Slob.size m block ≤ add32 size sizeofSlobBlock then m
  else
    let newBlock := add32 block size
    let m := setSize m newBlock (sub32 (Slob.size m block) size)
    let m := setMagic m newBlock 0
    let m := setNext m newBlock (next m block)
    let m := setPrev m newBlock block
    let m := if next m block ≠ 0 then setPrev m (next m block) newBlock else m
    let m := setNext m block newBlock
    setSize m block size

/-- The loop of `merge_free_blocks`. -/
def mergeLoop (page : Nat) : Nat → Memory → Nat → Option Memory
  | 0, _, _ => none
  | fuel + 1, m, current =>
      if current = 0 ∨ next m current = 0 then some m
      else
        let nextBlock := next m current
        if add32 current (size m current) = nextBlock then
          let m := setSize m current (add32 (size m current) (size m nextBlock))
          let m := setNext m current (next m nextBlock)
          let m := if next m nextBlock ≠ 0 then setPrev m (next m nextBlock) current else m
          let m := setFragmentation m page (dec32 (fragmentation m page))
          mergeLoop page fuel m current
        else mergeLoop page fuel m (next m current)

def mergeFreeBlocks (m : Memory) (page : Nat) : Option Memory :=
  if page = 0 ∨ freeList m page = 0 then some m
  else mergeLoop page turns m (freeList m page)

/-- `while (current->next && current->next < block) current = current->next`. -/
def insertLoop (m : Memory) (block : Nat) : Nat → Nat → Option Nat
  | 0, _ => none
  | fuel + 1, current =>
      if next m current ≠ 0 ∧ next m current < block then insertLoop m block fuel (next m current)
      else some current

/-- The tail of `add_free_block`: `block` goes in behind `current`. -/
def insertBehind (m : Memory) (page block current : Nat) : Memory :=
  let m := setNext m block (next m current)
  let m := setPrev m block current
  let m := if next m current ≠ 0 then setPrev m (next m current) block else m
  let m := setNext m current block
  setFragmentation m page (inc32 (fragmentation m page))

def addFreeBlock (m : Memory) (page block : Nat) : Option Memory :=
  if page = 0 ∨ block = 0 then some m
  else if freeList m page = 0 then
    some (setPrev (setNext (setFreeList m page block) block 0) block 0)
  else if block < freeList m page then
    let m := setNext m block (freeList m page)
    let m := setPrev m block 0
    let m := setPrev m (freeList m page) block
    some (setFreeList m page block)
  else do
    let current ← insertLoop m block turns (freeList m page)
    some (insertBehind m page block current)

def removeFreeBlock (m : Memory) (page block : Nat) : Memory :=
  if page = 0 ∨ block = 0 then m
  else
    let m := if freeList m page = block then setFreeList m page (next m block) else m
    let m := if prev m block ≠ 0 then setNext m (prev m block) (next m block) else m
    let m := if next m block ≠ 0 then setPrev m (next m block) (prev m block) else m
    setPrev (setNext m block 0) block 0

/-! ## Searches -/

/-- The loop of `find_free_block` over one page: the best block so far with its
size.  It stops at an exact fit. -/
def bestInPage (m : Memory) (size : Nat) : Nat → Nat → Nat × Nat → Option (Nat × Nat)
  | 0, _, _ => none
  | fuel + 1, block, best =>
      if block = 0 then some best
      else if size ≤ Slob.size m block ∧ Slob.size m block < best.2 then
        if Slob.size m block = size then some (block, Slob.size m block)
        else bestInPage m size fuel (next m block) (block, Slob.size m block)
      else bestInPage m size fuel (next m block) best

/-- The loop of `find_free_block` over the pages. -/
def bestInPages (m : Memory) (size : Nat) : Nat → Nat → Nat × Nat → Option Nat
  | 0, _, _ => none
  | fuel + 1, page, best =>
      if page = 0 then some best.1
      else do
        let best ← bestInPage m size turns (freeList m page) best
        if best.2 = size then some best.1
        else bestInPages m size fuel (pageNext m page) best

def findFreeBlock (z : Slob) (size : Nat) : Option Nat :=
  bestInPages z.mem size turns z.pages (0, 0xFFFFFFFF)

/-- The search of `alloc` and `free` for the page a block lies in; 0 if none. -/
def findPageLoop (m : Memory) (block : Nat) : Nat → Nat → Option Nat
  | 0, _ => none
  | fuel + 1, p =>
      if p = 0 then some 0
      else if pageAddr m p ≤ block ∧ block < add32 (pageAddr m p) (totalSize m p) then some p
      else findPageLoop m block fuel (pageNext m p)

def findPage (z : Slob) (block : Nat) : Option Nat := findPageLoop z.mem block turns z.pages

/-! ## Pages -/

/-- The stores of `alloc_page`: the page goes in front of `pages`, with one free
block. -/
def initPage (m : Memory) (page pages : Nat) : Memory :=
  let m := setPageAddr m page page
  let m := setTotalSize m page slobBlockSize
  let m := setFreeSize m page (slobBlockSize - sizeofSlobPage)
  let m := setFragmentation m page 0
  let m := setPageNext m page pages
  let m := setPagePrev m page 0
  let m := if pages ≠ 0 then setPagePrev m pages page else m
  let initialBlock := add32 page sizeofSlobPage
  let m := setSize m initialBlock (freeSize m page)
  let m := setMagic m initialBlock 0
  let m := setNext m initialBlock 0
  let m := setPrev m initialBlock 0
  setFreeList m page initialBlock

/-- `alloc_page` on what the buddy allocator answered; 0 if it refused. -/
def allocPage (z : Slob) (pageMem : Option Nat) : Slob × Nat :=
  match pageMem with
  | none => (z, 0)
  | some page =>
      let m := initPage z.mem page z.pages
      ({ z with
          pages := page
          totalPages := inc32 z.totalPages
          totalFree := add32 z.totalFree (freeSize m page)
          held := page :: z.held
          mem := m }, page)

def freePage (z : Slob) (page : Nat) : Slob :=
  if page = 0 then z
  else
    let pages := if pagePrev z.mem page ≠ 0 then z.pages else pageNext z.mem page
    let m :=
      if pagePrev z.mem page ≠ 0 then setPageNext z.mem (pagePrev z.mem page) (pageNext z.mem page)
      else z.mem
    let m := if pageNext m page ≠ 0 then setPagePrev m (pageNext m page) (pagePrev m page) else m
    { z with
      pages := pages
      totalPages := dec32 z.totalPages
      totalFree := sub32 z.totalFree (freeSize m page)
      held := z.held.erase (pageAddr m page)
      mem := m }

/-! ## Defragmentation -/

/-- The sum of `should_defragment`. -/
def fragmentationLoop (m : Memory) : Nat → Nat → Nat → Option Nat
  | 0, _, _ => none
  | fuel + 1, page, total =>
      if page = 0 then some total
      else fragmentationLoop m fuel (pageNext m page) (add32 total (fragmentation m page))

def shouldDefragment (z : Slob) : Option Bool := do
  let totalFragmentation ← fragmentationLoop z.mem turns z.pages 0
  if z.totalPages = 0 then some false
  else some (decide (z.fragmentationThreshold < totalFragmentation / z.totalPages))

/-- The loop of `defragment` over a page's free list. -/
def countLoop (page : Nat) : Nat → Memory → Nat → Option Memory
  | 0, _, _ => none
  | fuel + 1, m, block =>
      if block = 0 then some m
      else
        let m :=
          if next m block ≠ 0 then setFragmentation m page (inc32 (fragmentation m page)) else m
        countLoop page fuel m (next m block)

def defragmentLoop : Nat → Memory → Nat → Option Memory
  | 0, _, _ => none
  | fuel + 1, m, page =>
      if page = 0 then some m
      else do
        let m ← mergeFreeBlocks m page
        let m := setFragmentation m page 0
        let m ← countLoop page turns m (freeList m page)
        defragmentLoop fuel m (pageNext m page)

def defragment (z : Slob) : Option Slob := do
  let m ← defragmentLoop turns z.mem z.pages
  some { z with mem := m }

/-! ## Statistics -/

def getEfficiency (z : Slob) : Nat :=
  if add32 z.totalAllocated z.totalFree = 0 then 0
  else z.totalAllocated * 100 % wordSize / add32 z.totalAllocated z.totalFree

/-! ## Allocation and release -/

/-- The bytes a request takes: rounded up to `SLOB_ALIGN`, at least
`SLOB_MIN_ALLOC`, and the header. -/
def alignedSize (size : Nat) : Nat :=
  let aligned := (size + slobAlign - 1) / slobAlign * slobAlign
  let aligned := if aligned < slobMinAlloc then slobMinAlloc else aligned
  aligned + sizeofSlobBlock

/-- The second half of `alloc`, on the block that was found. -/
def takeBlock (z : Slob) (block alignedSize : Nat) : Option (Slob × Option Nat) := do
  let m :=
    if alignedSize + sizeofSlobBlock + slobMinAlloc < size z.mem block then
      splitBlock z.mem block alignedSize
    else z.mem
  let page ← findPage { z with mem := m } block
  let m :=
    if page ≠ 0 then
      let m := removeFreeBlock m page block
      setFreeSize m page (sub32 (freeSize m page) (size m block))
    else m
  let m := setMagic m block slobMagic
  some ({ z with mem := m, totalAllocated := add32 z.totalAllocated (size m block) },
    some (add32 block sizeofSlobBlock))

/-- `alloc`; `pageMem` is what the buddy allocator answers if it is asked. -/
def alloc (z : Slob) (size : Nat) (pageMem : Option Nat) : Option (Slob × Option Nat) :=
  if size = 0 ∨ slobMaxAlloc < size then some (z, none)
  else do
    let block ← z.findFreeBlock (alignedSize size)
    if block ≠ 0 then z.takeBlock block (alignedSize size)
    else
      let (z, newPage) := z.allocPage pageMem
      if newPage = 0 then some (z, none)
      else
        let block ← z.findFreeBlock (alignedSize size)
        if block = 0 then some (z, none) else z.takeBlock block (alignedSize size)

/-- The middle of `free`: `block` goes back to `page`. -/
def giveBack (z : Slob) (page block : Nat) : Option Slob := do
  let m := setMagic z.mem block 0
  let totalAllocated := sub32 z.totalAllocated (size m block)
  let m := setFreeSize m page (add32 (freeSize m page) (size m block))
  let m ← addFreeBlock m page block
  let m ← mergeFreeBlocks m page
  some { z with mem := m, totalAllocated := totalAllocated }

def free (z : Slob) (ptr : Nat) : Option Slob :=
  if ptr = 0 then some z
  else
    let block := sub32 ptr sizeofSlobBlock
    if magic z.mem block ≠ slobMagic then some z
    else do
      let page ← z.findPage block
      if page = 0 then some z
      else
        let z ← z.giveBack page block
        let z :=
          if freeSize z.mem page = sub32 (totalSize z.mem page) sizeofSlobPage ∧ 1 < z.totalPages then
            z.freePage page
          else z
        if ← z.shouldDefragment then z.defragment else some z

/-- `init`, over whatever bytes `mem` holds. -/
def init (mem : Memory) (pageMem : Option Nat) : Slob :=
  (allocPage
    { pages := 0
      totalPages := 0
      totalAllocated := 0
      totalFree := 0
      fragmentationThreshold := 75
      held := []
      mem := mem } pageMem).1

end Slob

/-! ## Clients

`live` records the pointers clients hold, each with the size that was asked
for; the allocator never looks at it. -/

/-- The allocator together with the pointers its clients hold. -/
structure SlobHeap where
  slob : Slob
  live : List (Nat × Nat)

inductive SlobCall
  | alloc (size : Nat) (pageMem : Option Nat)
  | free (ptr : Nat)
  | write (addr : Nat) (byte : UInt8)

namespace SlobHeap

open Slob

/-- A pointer that is returned is now the client's. -/
def grant (r : Slob × Option Nat) (live : List (Nat × Nat)) (size : Nat) : SlobHeap :=
  match r.2 with
  | none => { slob := r.1, live := live }
  | some ptr => { slob := r.1, live := (ptr, size) :: live }

/-- The state after a call; `none` if a loop of it does not end. -/
def step (h : SlobHeap) : SlobCall → Option SlobHeap
  | .alloc size pageMem => do
      let r ← h.slob.alloc size pageMem
      some (grant r h.live size)
  | .free ptr => do
      let z ← h.slob.free ptr
      some { slob := z, live := h.live.filter (fun l => l.1 ≠ ptr) }
  | .write addr byte =>
      some { h with slob := { h.slob with mem := h.slob.mem.store8 addr byte } }

/-- What the buddy allocator may answer: null, or 4096 bytes that are in no page
it has already handed over.  Both ends are addresses, neither of them null. -/
def PageOk (held : List Nat) : Option Nat → Prop
  | none => True
  | some p => 0 < p ∧ p + slobBlockSize < wordSize ∧
      ∀ q ∈ held, p + slobBlockSize ≤ q ∨ q + slobBlockSize ≤ p

/-- The bytes of the block behind a pointer, header excluded. -/
def InPayload (m : Memory) (ptr addr : Nat) : Prop :=
  ptr ≤ addr ∧ addr + sizeofSlobBlock < ptr + size m (ptr - sizeofSlobBlock)

/-- Clients free what they hold, and write into what they hold or outside the
pages altogether. -/
def Allowed (h : SlobHeap) : SlobCall → Prop
  | .alloc _ pageMem => PageOk h.slob.held pageMem
  | .free ptr => ∃ l ∈ h.live, l.1 = ptr
  | .write addr _ => (∃ l ∈ h.live, InPayload h.slob.mem l.1 addr) ∨
      ∀ p ∈ h.slob.held, addr < p ∨ p + slobBlockSize ≤ addr

/-- The heap `init` leaves. -/
def start (mem : Memory) (pageMem : Option Nat) : SlobHeap :=
  { slob := Slob.init mem pageMem, live := [] }

instance (held : List Nat) : (p : Option Nat) → Decidable (PageOk held p)
  | none => isTrue True.intro
  | some p => inferInstanceAs (Decidable (0 < p ∧ p + slobBlockSize < wordSize ∧
      ∀ q ∈ held, p + slobBlockSize ≤ q ∨ q + slobBlockSize ≤ p))

instance (m : Memory) (ptr addr : Nat) : Decidable (InPayload m ptr addr) :=
  inferInstanceAs (Decidable (_ ∧ _))

instance (h : SlobHeap) : (c : SlobCall) → Decidable (h.Allowed c)
  | .alloc _ pageMem => inferInstanceAs (Decidable (PageOk h.slob.held pageMem))
  | .free ptr => inferInstanceAs (Decidable (∃ l ∈ h.live, l.1 = ptr))
  | .write addr _ => inferInstanceAs (Decidable
      ((∃ l ∈ h.live, InPayload h.slob.mem l.1 addr) ∨
        ∀ p ∈ h.slob.held, addr < p ∨ p + slobBlockSize ≤ addr))

end SlobHeap

end KmOS
