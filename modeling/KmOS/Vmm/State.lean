/-
# `KmOS.Vmm.State` — the memory-management state and its frame allocator

`VMM`, `COWManager` and `SwapManager` are three singletons that read and write
one another's data, so the model keeps their fields in one flat record,
`Kernel`.  Page directories are named by their addresses; `live` is the set of
those that have been created and not yet destroyed.

**What is left out.**  The hardware bits of a table entry that no modelled
function touches (`accessed`, `dirty`, `pat`, …) and the counters that are
only printed (`total_cow_pages`, `swap_in_count`, …).

**The environment.**  Two things decide whether a call inside the kernel
succeeds and are not decided here: the heap behind `kmalloc` and the slab
caches, and the swap devices.  Their answers are read off the lists `kmallocs`
and `ios`, one per call; an exhausted list answers yes.  Every result
quantifies over these lists.

**The pressure path.**  When the bitmap is full, `alloc_frame` asks
`check_memory_pressure`, which asks `get_memory_stats`, which asks
`check_memory_pressure` again: in the source that call never comes back.  The
field `hung` records that a call has not come back.  With `reclaim = false`
the pressure path is cut off and `alloc_frame` answers 0, which is what it
answers when nothing could be reclaimed.
-/
import KmOS.Lib.Bitmap
import Mathlib.Data.Finset.Basic

namespace KmOS

/-! ## Constants of `vmm.cc` and `x86.h` -/

def frameSize : Nat := 4096
def maxFrames : Nat := 0x100000
def physMemStart : Nat := 0x100000

theorem maxFrames_pos : 0 < maxFrames := by decide

def pgPresent : Nat := 0x1
def pgWrite : Nat := 0x2
def pgUser : Nat := 0x4

def kernHeap : Nat := 0x00200000
def kernHeapLim : Nat := 0x00800000
def userOffset : Nat := 0x40000000
def userStack : Nat := 0xE0000000

/-! ## Page directories -/

/-- `struct page_directory_entry`; `frame` is its 20-bit field. -/
structure PageDirectoryEntry where
  present : Bool
  writable : Bool
  user : Bool
  frame : Fin maxFrames

/-- `struct page_table_entry`. -/
structure PageTableEntry where
  present : Bool
  writable : Bool
  user : Bool
  frame : Fin maxFrames
  deriving DecidableEq

/-- A page table: the 1024 entries `kmalloc` gave room for. -/
abbrev PageTable := Fin 1024 → PageTableEntry

/-- `struct swapped_page_entry`, without its link. -/
structure SwappedPageEntry where
  virtualAddr : Nat
  swapEntry : Nat
  deriving DecidableEq

/-- `struct page_directory`; a null `page_tables[i]` is `none`. -/
structure PageDirectory where
  tables : Fin 1024 → PageDirectoryEntry
  pageTables : Fin 1024 → Option PageTable
  physicalAddress : Nat
  swappedPages : List SwappedPageEntry

/-! ## Copy-on-write records -/

def cowMagic : Nat := 0xC0BABE1
def maxCowRefs : Nat := 65536

/-- `struct cow_page`; the list `cow_pages` is kept as a list. -/
structure CowPage where
  physicalAddr : Nat
  refCount : Nat
  magic : Nat
  deriving DecidableEq

/-- `struct cow_mapping`; its `cow_page` pointer is the address the record
was made for. -/
structure CowMapping where
  virtualAddr : Nat
  size : Nat
  flags : Nat
  ownerPd : Nat
  cowPage : Option Nat
  deriving DecidableEq

/-! ## Swap devices -/

/-- A page of memory, byte by byte. -/
abbrev Page := Fin 4096 → UInt8

/-- `struct swap_device`.  `addr` is where the record lies, `store` is what
the device holds at each offset. -/
structure SwapDevice where
  addr : Nat
  path : String
  pages : Nat
  inusePages : BitVec 32
  bitmap : Words
  bitmapSize : Nat
  store : Nat → Page

/-- `struct page_lru`, without its links. -/
structure PageLru where
  virtualAddr : Nat
  accessTime : BitVec 32
  flags : BitVec 32
  deriving DecidableEq

/-! ## The kernel state -/

structure Kernel where
  frameBitmap : Words
  framesUsed : BitVec 32
  physMem : Nat → UInt8
  live : Finset Nat
  dir : Nat → PageDirectory
  currentDirectory : Nat
  cowPages : List CowPage
  cowMappings : List CowMapping
  swapDevices : List SwapDevice
  totalSwapPages : BitVec 32
  usedSwapPages : BitVec 32
  lru : List PageLru
  accessCounter : BitVec 32
  kmallocs : List Bool
  ios : List Bool
  reclaim : Bool
  hung : Bool

namespace Kernel

/-- Bit `i` of `frame_bitmap`. -/
def used (k : Kernel) (i : Nat) : Bool := k.frameBitmap.testBit i

/-- Replace the directory at `pd`. -/
def setDir (k : Kernel) (pd : Nat) (d : PageDirectory) : Kernel :=
  { k with dir := Function.update k.dir pd d }

/-- One call of `kmalloc` or of a slab cache: does it return memory? -/
def kmalloc (k : Kernel) : Bool × Kernel :=
  match k.kmallocs with
  | [] => (true, k)
  | b :: bs => (b, { k with kmallocs := bs })

/-- One transfer from or to a swap device: does it succeed? -/
def io (k : Kernel) : Bool × Kernel :=
  match k.ios with
  | [] => (true, k)
  | b :: bs => (b, { k with ios := bs })

/-- The tail of `alloc_frame`, entered when no bit is clear. -/
def underPressure (k : Kernel) : Kernel :=
  if k.reclaim then { k with hung := true } else k

/-- Mark frame `i` used and count it. -/
def takeFrame (k : Kernel) (i : Nat) : Kernel :=
  { k with frameBitmap := k.frameBitmap.setBit i, framesUsed := k.framesUsed + 1 }

/-- `VMM::alloc_frame`. -/
def allocFrame (k : Kernel) : Nat × Kernel :=
  match k.frameBitmap.firstClear (maxFrames / 32) with
  | some i => (i * frameSize, k.takeFrame i)
  | none => (0, k.underPressure)

/-- `VMM::free_frame`. -/
def freeFrame (k : Kernel) (frameAddr : Nat) : Kernel :=
  let frameIdx := frameAddr / frameSize
  if frameIdx < maxFrames then
    { k with frameBitmap := k.frameBitmap.clearBit frameIdx, framesUsed := k.framesUsed - 1 }
  else k

/-- The state the frame set-up of `VMM::init` leaves: the frames below
`PHYS_MEM_START` are taken, the others free, and no directory exists yet. -/
def boot : Kernel where
  frameBitmap := fun i => if i < physMemStart / frameSize / 32 then 0xFFFFFFFF#32 else 0#32
  framesUsed := BitVec.ofNat 32 (physMemStart / frameSize)
  physMem := fun _ => 0
  live := ∅
  dir := fun _ =>
    { tables := fun _ =>
        { present := false, writable := false, user := false, frame := ⟨0, maxFrames_pos⟩ }
      pageTables := fun _ => none
      physicalAddress := 0
      swappedPages := [] }
  currentDirectory := 0
  cowPages := []
  cowMappings := []
  swapDevices := []
  totalSwapPages := 0
  usedSwapPages := 0
  lru := []
  accessCounter := 0
  kmallocs := []
  ios := []
  reclaim := true
  hung := false

/-! ## What the frame allocator does to the state -/

/-- The part of the state that neither the frame allocator nor the page-table
functions write: everything but the bitmap and its count, the tables, the
answers of `kmalloc` and `hung`. -/
structure Rest where
  physMem : Nat → UInt8
  live : Finset Nat
  physicalAddress : Nat → Nat
  swappedPages : Nat → List SwappedPageEntry
  currentDirectory : Nat
  cowPages : List CowPage
  cowMappings : List CowMapping
  swapDevices : List SwapDevice
  totalSwapPages : BitVec 32
  usedSwapPages : BitVec 32
  lru : List PageLru
  accessCounter : BitVec 32
  ios : List Bool
  reclaim : Bool

def rest (k : Kernel) : Rest where
  physMem := k.physMem
  live := k.live
  physicalAddress pd := (k.dir pd).physicalAddress
  swappedPages pd := (k.dir pd).swappedPages
  currentDirectory := k.currentDirectory
  cowPages := k.cowPages
  cowMappings := k.cowMappings
  swapDevices := k.swapDevices
  totalSwapPages := k.totalSwapPages
  usedSwapPages := k.usedSwapPages
  lru := k.lru
  accessCounter := k.accessCounter
  ios := k.ios
  reclaim := k.reclaim

@[simp] theorem kmalloc_dir (k : Kernel) : k.kmalloc.2.dir = k.dir := by
  unfold kmalloc
  cases k.kmallocs <;> rfl

@[simp] theorem kmalloc_rest (k : Kernel) : k.kmalloc.2.rest = k.rest := by
  unfold kmalloc
  cases k.kmallocs <;> rfl

@[simp] theorem underPressure_dir (k : Kernel) : k.underPressure.dir = k.dir := by
  unfold underPressure
  split <;> rfl

@[simp] theorem underPressure_rest (k : Kernel) : k.underPressure.rest = k.rest := by
  unfold underPressure
  split <;> rfl

@[simp] theorem allocFrame_dir (k : Kernel) : k.allocFrame.2.dir = k.dir := by
  unfold allocFrame
  split
  · rfl
  · exact k.underPressure_dir

@[simp] theorem allocFrame_rest (k : Kernel) : k.allocFrame.2.rest = k.rest := by
  unfold allocFrame
  split
  · rfl
  · exact k.underPressure_rest

@[simp] theorem freeFrame_dir (k : Kernel) (a : Nat) : (k.freeFrame a).dir = k.dir := by
  unfold freeFrame
  simp only
  split <;> rfl

@[simp] theorem freeFrame_rest (k : Kernel) (a : Nat) : (k.freeFrame a).rest = k.rest := by
  unfold freeFrame
  simp only
  split <;> rfl

@[simp] theorem kmalloc_frameBitmap (k : Kernel) : k.kmalloc.2.frameBitmap = k.frameBitmap := by
  unfold kmalloc
  cases k.kmallocs <;> rfl

@[simp] theorem kmalloc_framesUsed (k : Kernel) : k.kmalloc.2.framesUsed = k.framesUsed := by
  unfold kmalloc
  cases k.kmallocs <;> rfl

@[simp] theorem underPressure_frameBitmap (k : Kernel) :
    k.underPressure.frameBitmap = k.frameBitmap := by
  unfold underPressure
  split <;> rfl

@[simp] theorem underPressure_framesUsed (k : Kernel) :
    k.underPressure.framesUsed = k.framesUsed := by
  unfold underPressure
  split <;> rfl

/-- **What `alloc_frame` answers.**  Either the bitmap was full, or the lowest
clear frame was taken; in the second case the answer 0 still means frame 0. -/
theorem allocFrame_cases (k : Kernel) :
    (k.allocFrame = (0, k.underPressure) ∧ ∀ j, j < maxFrames → k.used j = true) ∨
    ∃ i, i < maxFrames ∧ k.used i = false ∧ (∀ j, j < i → k.used j = true) ∧
      k.allocFrame = (i * frameSize, k.takeFrame i) := by
  unfold allocFrame
  cases h : k.frameBitmap.firstClear (maxFrames / 32) with
  | none => exact Or.inl ⟨rfl, fun j hj => Words.firstClear_eq_none h j hj⟩
  | some i =>
      obtain ⟨h1, h2, h3⟩ := Words.firstClear_eq_some h
      exact Or.inr ⟨i, h1, h2, h3, rfl⟩

/-- Taking a frame clears no bit. -/
theorem used_allocFrame_of_used {k : Kernel} {j : Nat} (h : k.used j = true) :
    k.allocFrame.2.used j = true := by
  rcases k.allocFrame_cases with ⟨he, _⟩ | ⟨i, _, _, _, he⟩
  · rw [he]
    simpa [used] using h
  · rw [he]
    simp only [used, takeFrame, Words.testBit_setBit]
    simp only [used] at h
    simp [h]

/-- The answer of `alloc_frame`, when it is not 0, is a frame whose bit was
clear and is now set. -/
theorem allocFrame_of_ne_zero {k : Kernel} (h : k.allocFrame.1 ≠ 0) :
    ∃ i, 0 < i ∧ i < maxFrames ∧ k.used i = false ∧ (∀ j, j < i → k.used j = true) ∧
      k.allocFrame = (i * frameSize, k.takeFrame i) := by
  rcases k.allocFrame_cases with ⟨he, _⟩ | ⟨i, hi, hu, hlow, he⟩
  · rw [he] at h
    exact absurd rfl h
  · refine ⟨i, ?_, hi, hu, hlow, he⟩
    rcases Nat.eq_zero_or_pos i with h0 | h0
    · rw [he, h0] at h
      exact absurd (Nat.zero_mul _) h
    · exact h0

theorem used_freeFrame {k : Kernel} {a j : Nat} :
    (k.freeFrame a).used j =
      (!decide (j = a / frameSize ∧ a / frameSize < maxFrames) && k.used j) := by
  unfold freeFrame used
  simp only
  split
  · next h => simp [Words.testBit_clearBit, h]
  · next h => simp [h]

theorem used_freeFrame_of_ne {k : Kernel} {a j : Nat} (h : j ≠ a / frameSize) :
    (k.freeFrame a).used j = k.used j := by
  simp [used_freeFrame, h]

end Kernel

end KmOS
