/-
# `KmOS.Stack.Model` — the stack allocator

`class StackAllocator` and `class ScopedStackAllocator`.  Pointers and sizes
are 32-bit words, 0 is null, and the comparisons of pointers are those of
addresses.  Frames and checkpoint records are named by their addresses; a
record that was given back keeps its words until the address is used again.

`kmalloc` and `kfree` are the heap of `KmOS.Lib.BlockHeap`.

**What is left out.**  The fields of `stack_stats` that only `print_stats` would
read (`frame_count` is never written), the static and the thread-local
allocators, and the texts that `detect_corruption` prints.
-/
import Mathlib.Logic.Function.Basic
import KmOS.Lib.BlockHeap
import KmOS.Slob.Model

namespace KmOS

def stackMagic : UInt32 := 0x57ACF12
def stackCanary : UInt32 := 0xDEADBEEF
def defaultStackSize : UInt32 := 64 * 1024
def minStackSize : UInt32 := 4096
def maxStackSize : UInt32 := 1024 * 1024
def stackAlignment : UInt32 := 16

/-- `sizeof(struct stack_frame)`. -/
def sizeofStackFrame : UInt32 := 32

/-- `sizeof(struct stack_checkpoint)`. -/
def sizeofStackCheckpoint : UInt32 := 12

/-- `struct stack_frame`. -/
structure StackFrame where
  start : UInt32
  current : UInt32
  «end» : UInt32
  size : UInt32
  magic : UInt32
  canary : UInt32
  prev : UInt32
  next : UInt32

/-- `struct stack_checkpoint`. -/
structure StackCheckpoint where
  savedPos : UInt32
  timestamp : UInt32
  prev : UInt32

/-- `struct stack_stats`. -/
structure StackStats where
  totalAllocations : UInt32 := 0
  peakUsage : UInt32 := 0
  currentUsage : UInt32 := 0
  checkpointCount : UInt32 := 0
  overflowChecks : UInt32 := 0
  underflowChecks : UInt32 := 0
  corruptionDetected : UInt32 := 0
  totalAllocatedBytes : UInt64 := 0
  totalFreedBytes : UInt64 := 0

/-- `stats.total_allocations++; ...; update_peak_usage();` -/
def StackStats.allocated (t : StackStats) (alignedSize : UInt32) : StackStats :=
  let usage := t.currentUsage + alignedSize
  { t with
    totalAllocations := t.totalAllocations + 1
    currentUsage := usage
    totalAllocatedBytes := t.totalAllocatedBytes + alignedSize.toUInt64
    peakUsage := if t.peakUsage < usage then usage else t.peakUsage }

/-- What `free_to_checkpoint` writes down. -/
def StackStats.freed (t : StackStats) (freedBytes : UInt32) (check : Bool) : StackStats :=
  { t with
    currentUsage := if freedBytes < t.currentUsage then t.currentUsage - freedBytes else 0
    totalFreedBytes := t.totalFreedBytes + freedBytes.toUInt64
    underflowChecks := if check = true then t.underflowChecks + 1 else t.underflowChecks }

/-- `class StackAllocator`, and the memory it uses. -/
structure StackAllocator where
  frame : UInt32 → StackFrame
  record : UInt32 → StackCheckpoint
  heap : BlockHeap
  currentFrame : UInt32
  frameList : UInt32
  checkpointStack : UInt32
  stats : StackStats
  totalCapacity : UInt32
  frameCount : UInt32
  overflowDetection : Bool
  underflowDetection : Bool
  initialized : Bool

/-- `x > 0 ? x - 1 : 0` on a counter. -/
def decCount (x : UInt32) : UInt32 := if 0 < x then x - 1 else 0

namespace StackAllocator

/-- `kmalloc`. -/
def kmalloc (s : StackAllocator) (size : UInt32) : UInt32 × StackAllocator :=
  let (p, heap) := s.heap.alloc size.toNat
  (UInt32.ofNat p, { s with heap := heap })

/-- `kfree`. -/
def kfree (s : StackAllocator) (p : UInt32) : StackAllocator :=
  { s with heap := s.heap.free p.toNat }

/-- The frame in use. -/
def cur (s : StackAllocator) : StackFrame := s.frame s.currentFrame

/-- Update one frame. -/
def modifyFrame (s : StackAllocator) (p : UInt32) (f : StackFrame → StackFrame) : StackAllocator :=
  { s with frame := Function.update s.frame p (f (s.frame p)) }

/-- Update one record. -/
def modifyRecord (s : StackAllocator) (p : UInt32) (f : StackCheckpoint → StackCheckpoint) :
    StackAllocator :=
  { s with record := Function.update s.record p (f (s.record p)) }

/-- Update the statistics. -/
def modifyStats (s : StackAllocator) (f : StackStats → StackStats) : StackAllocator :=
  { s with stats := f s.stats }

def alignPointer (ptr alignment : UInt32) : UInt32 := (ptr + alignment - 1) &&& ~~~(alignment - 1)

def alignSize (size alignment : UInt32) : UInt32 := (size + alignment - 1) &&& ~~~(alignment - 1)

/-! ## Frames -/

/-- `StackAllocator::allocate_frame`. -/
def allocateFrame (s : StackAllocator) (size : UInt32) : UInt32 × StackAllocator :=
  let totalSize := sizeofStackFrame + size
  let (memory, s) := s.kmalloc totalSize
  if memory = 0 then (0, s)
  else
    let start := memory + sizeofStackFrame
    (memory, s.modifyFrame memory fun _ =>
      { start := start, current := start, «end» := start + size, size := size, magic := stackMagic,
        canary := stackCanary, prev := 0, next := 0 })

/-- `StackAllocator::deallocate_frame`. -/
def deallocateFrame (s : StackAllocator) (frame : UInt32) : StackAllocator :=
  if frame = 0 then s
  else (s.modifyFrame frame fun f => { f with magic := 0, canary := 0 }).kfree frame

/-- `StackAllocator::link_frame`. -/
def linkFrame (s : StackAllocator) (frame : UInt32) : StackAllocator :=
  if frame = 0 then s
  else
    let s := s.modifyFrame frame fun f => { f with next := 0, prev := s.currentFrame }
    let s :=
      if s.currentFrame ≠ 0 then s.modifyFrame s.currentFrame fun f => { f with next := frame }
      else s
    if s.frameList = 0 then { s with frameList := frame } else s

/-- `StackAllocator::unlink_frame`. -/
def unlinkFrame (s : StackAllocator) (frame : UInt32) : StackAllocator :=
  if frame = 0 then s
  else
    let prev := (s.frame frame).prev
    let next := (s.frame frame).next
    let s :=
      if prev ≠ 0 then s.modifyFrame prev fun f => { f with next := next }
      else { s with frameList := next }
    let s := if next ≠ 0 then s.modifyFrame next fun f => { f with prev := prev } else s
    s.modifyFrame frame fun f => { f with next := 0, prev := 0 }

/-- The size of the frame that `grow` asks for. -/
def newFrameSize (s : StackAllocator) (additionalSize : UInt32) : UInt32 :=
  if additionalSize < s.cur.size * 2 then s.cur.size * 2 else additionalSize

/-- The end of `grow`: a new frame becomes the current one. -/
def pushFrame (s : StackAllocator) (newFrame size : UInt32) : StackAllocator :=
  let s := s.linkFrame newFrame
  { s with
    currentFrame := newFrame
    totalCapacity := s.totalCapacity + size
    frameCount := s.frameCount + 1 }

/-- `StackAllocator::grow`. -/
def grow (s : StackAllocator) (additionalSize : UInt32) : Bool × StackAllocator :=
  if s.initialized = false then (false, s)
  else if maxStackSize < s.totalCapacity + s.newFrameSize additionalSize then (false, s)
  else
    match s.allocateFrame (s.newFrameSize additionalSize) with
    | (newFrame, s') =>
        if newFrame = 0 then (false, s')
        else (true, s'.pushFrame newFrame (s.newFrameSize additionalSize))

def usedBytes (s : StackAllocator) : UInt32 := s.cur.current - s.cur.start

/-- The loop of `shrink_to_fit`. -/
def shrinkLoop : Nat → StackAllocator → StackAllocator
  | 0, s => s
  | fuel + 1, s =>
      if 1 < s.frameCount ∧ s.usedBytes = 0 then
        let prevFrame := s.cur.prev
        if prevFrame = 0 then s
        else
          let old := s.currentFrame
          let s := s.unlinkFrame old
          let s := { s with totalCapacity := s.totalCapacity - (s.frame old).size }
          let s := s.deallocateFrame old
          shrinkLoop fuel { s with currentFrame := prevFrame, frameCount := s.frameCount - 1 }
      else s

/-- `StackAllocator::shrink_to_fit`. -/
def shrinkToFit (s : StackAllocator) : Bool × StackAllocator :=
  if s.initialized = false ∨ s.frameCount ≤ 1 then (false, s)
  else (true, shrinkLoop s.frameCount.toNat s)

/-- `StackAllocator::init`. -/
def init (s : StackAllocator) (initialSize : UInt32) : StackAllocator :=
  if s.initialized = true then s
  else
    let size := if initialSize < minStackSize then minStackSize else initialSize
    let size := if maxStackSize < size then maxStackSize else size
    let (frame, s) := s.allocateFrame size
    let s := { s with currentFrame := frame }
    if frame = 0 then s
    else
      { s with
        frameList := frame
        checkpointStack := 0
        totalCapacity := size
        frameCount := 1
        overflowDetection := true
        underflowDetection := true
        initialized := true
        stats := {} }

/-! ## Allocation -/

/-- The position of the current frame moves to `pos`. -/
def moveTo (s : StackAllocator) (pos : UInt32) : StackAllocator :=
  s.modifyFrame s.currentFrame fun f => { f with current := pos }

/-- The end of `alloc`: the block at `p` is cut off. -/
def take (s : StackAllocator) (p alignedSize : UInt32) : UInt32 × StackAllocator :=
  let s := (s.moveTo (p + alignedSize)).modifyStats fun t => t.allocated alignedSize
  if s.overflowDetection = true ∧ s.cur.canary ≠ stackCanary then
    (0, s.modifyStats fun t => { t with corruptionDetected := t.corruptionDetected + 1 })
  else (p, s)

/-- `if (overflow_detection) stats.overflow_checks++;` -/
def countCheck (s : StackAllocator) : StackAllocator :=
  s.modifyStats fun t =>
    if s.overflowDetection = true then { t with overflowChecks := t.overflowChecks + 1 } else t

/-- Where an allocation in the current frame would end. -/
def endOf (s : StackAllocator) (size alignment : UInt32) : UInt32 :=
  alignPointer s.cur.current alignment + alignSize size alignment

/-- `StackAllocator::alloc`. -/
def alloc (s : StackAllocator) (size alignment : UInt32) : UInt32 × StackAllocator :=
  if s.initialized = false ∨ size = 0 then (0, s)
  else
    let s := s.countCheck
    let n := alignSize size alignment
    if s.cur.«end» < s.endOf size alignment then
      match s.grow (n * 2) with
      | (false, s) => (0, s)
      | (true, s) =>
          if s.cur.«end» < s.endOf size alignment then (0, s)
          else s.take (alignPointer s.cur.current alignment) n
    else s.take (alignPointer s.cur.current alignment) n

/-- `StackAllocator::alloc_aligned`. -/
def allocAligned (s : StackAllocator) (size alignment : UInt32) : UInt32 × StackAllocator :=
  let alignment :=
    if alignment = 0 ∨ alignment &&& (alignment - 1) ≠ 0 then stackAlignment else alignment
  s.alloc size alignment

/-- `StackAllocator::get_top`. -/
def getTop (s : StackAllocator) : UInt32 := if s.initialized = true then s.cur.current else 0

/-- `StackAllocator::is_valid_ptr`. -/
def isValidPtr (s : StackAllocator) (ptr : UInt32) : Bool :=
  if s.initialized = false ∨ ptr = 0 then false
  else decide (s.cur.start ≤ ptr ∧ ptr ≤ s.cur.current)

/-! ## Checkpoints -/

/-- `StackAllocator::free_to_checkpoint`. -/
def freeToCheckpoint (s : StackAllocator) (checkpoint : UInt32) : StackAllocator :=
  if s.initialized = false ∨ checkpoint = 0 then s
  else
    let savedPos := (s.record checkpoint).savedPos
    if s.isValidPtr savedPos = false then s
    else
      (s.moveTo savedPos).modifyStats fun t =>
        t.freed (s.cur.current - savedPos) s.underflowDetection

/-- `while (checkpoint_stack) { ... }` in `reset`. -/
def dropRecords : Nat → StackAllocator → StackAllocator
  | 0, s => s
  | fuel + 1, s =>
      if s.checkpointStack = 0 then s
      else
        let next := (s.record s.checkpointStack).prev
        dropRecords fuel { s.kfree s.checkpointStack with checkpointStack := next }

/-- `StackAllocator::reset`. -/
def reset (s : StackAllocator) : StackAllocator :=
  if s.initialized = false then s
  else
    dropRecords turns <| (s.moveTo s.cur.start).modifyStats fun t =>
      { t with
        totalFreedBytes := t.totalFreedBytes + t.currentUsage.toUInt64
        currentUsage := 0 }

/-- The end of `create_checkpoint`: the record at `cp` is the first of the chain. -/
def pushRecord (s : StackAllocator) (cp : UInt32) : StackAllocator :=
  { (s.modifyRecord cp fun _ =>
      { savedPos := s.cur.current, timestamp := 0, prev := s.checkpointStack }).modifyStats
      fun t => { t with checkpointCount := t.checkpointCount + 1 } with
    checkpointStack := cp }

/-- `StackAllocator::create_checkpoint`. -/
def createCheckpoint (s : StackAllocator) : UInt32 × StackAllocator :=
  if s.initialized = false then (0, s)
  else
    match s.kmalloc sizeofStackCheckpoint with
    | (cp, s) => if cp = 0 then (0, s) else (cp, s.pushRecord cp)

/-- One checkpoint fewer in the statistics. -/
def uncount (s : StackAllocator) : StackAllocator :=
  s.modifyStats fun t => { t with checkpointCount := decCount t.checkpointCount }

/-- `while (cp && cp != checkpoint) { ... }` in `restore_checkpoint`. -/
def restoreLoop (checkpoint : UInt32) : Nat → StackAllocator → UInt32 → UInt32 × StackAllocator
  | 0, s, cp => (cp, s)
  | fuel + 1, s, cp =>
      if cp ≠ 0 ∧ cp ≠ checkpoint then
        let prev := (s.record cp).prev
        restoreLoop checkpoint fuel (s.kfree cp).uncount prev
      else (cp, s)

/-- The end of `restore_checkpoint`: the records before `checkpoint` are given
back, and `checkpoint` is taken off the chain if it is on it. -/
def popTo (s : StackAllocator) (checkpoint : UInt32) : StackAllocator :=
  match restoreLoop checkpoint turns s s.checkpointStack with
  | (cp, s) => if cp = checkpoint then { s.uncount with checkpointStack := (s.record cp).prev } else s

/-- `StackAllocator::restore_checkpoint`. -/
def restoreCheckpoint (s : StackAllocator) (checkpoint : UInt32) : StackAllocator :=
  if checkpoint = 0 then s else (s.freeToCheckpoint checkpoint).popTo checkpoint

/-- `while (cp && cp != checkpoint) { ... }` in `destroy_checkpoint`. -/
def destroyLoop (s : StackAllocator) (checkpoint : UInt32) :
    Nat → UInt32 → UInt32 → UInt32 × UInt32
  | 0, cp, prevCp => (cp, prevCp)
  | fuel + 1, cp, prevCp =>
      if cp ≠ 0 ∧ cp ≠ checkpoint then destroyLoop s checkpoint fuel (s.record cp).prev cp
      else (cp, prevCp)

/-- `StackAllocator::destroy_checkpoint`. -/
def destroyCheckpoint (s : StackAllocator) (checkpoint : UInt32) : StackAllocator :=
  if checkpoint = 0 then s
  else
    match s.destroyLoop checkpoint turns s.checkpointStack 0 with
    | (cp, prevCp) =>
        if cp = checkpoint then
          let prev := (s.record cp).prev
          if prevCp ≠ 0 then
            ((s.modifyRecord prevCp fun r => { r with prev := prev }).kfree cp).uncount
          else ({ s with checkpointStack := prev }.kfree cp).uncount
        else s

end StackAllocator

/-! ## `ScopedStackAllocator` -/

/-- The fields besides the allocator, which is not null here. -/
structure ScopedStackAllocator where
  checkpoint : UInt32
  active : Bool

namespace StackAllocator

/-- `ScopedStackAllocator::ScopedStackAllocator`. -/
def enterScope (s : StackAllocator) : ScopedStackAllocator × StackAllocator :=
  let (cp, s) := s.createCheckpoint
  ({ checkpoint := cp, active := cp ≠ 0 }, s)

/-- `ScopedStackAllocator::~ScopedStackAllocator`. -/
def leaveScope (s : StackAllocator) (scope : ScopedStackAllocator) : StackAllocator :=
  if scope.active = true ∧ scope.checkpoint ≠ 0 then
    (s.restoreCheckpoint scope.checkpoint).destroyCheckpoint scope.checkpoint
  else s

end StackAllocator

end KmOS
