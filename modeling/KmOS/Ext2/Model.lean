/-
# `KmOS.Ext2.Model` — reading files of an ext2 volume

`Ext2Mount::read_inode`, `get_block` and `read_file_data`, over
`BlockDevice::read` of `KmOS.Block.Model`.  The arithmetic is that of `u32`,
the byte offset of an inode that of `u64`.

**Outcomes.**  A division by zero traps, and the call never returns; that is the
outer `none` of `readInode` and `readFileData`.

**The heap.**  What `kmalloc` answers is given, request by request.  It has
nothing for a request of no bytes, and no block as large as the kernel's part
of the address space, so that the `int` count of `memcpy` is never negative
where a block of that size was allocated.

**What is left out.**  Mounting, directories, and the fields of the superblock,
of the group descriptors and of the inodes that reading a file does not read.
-/
import KmOS.Lib.Bytes
import KmOS.Block.Model

namespace KmOS

/-! ## `kmalloc` -/

/-- What `kmalloc` answers to each request to come, by its size. -/
structure Heap where
  answer : Nat → Nat → Option Buffer
  zero : ∀ n, answer n 0 = none
  limit : ∀ n size, 0x40000000 ≤ size → answer n size = none

def Heap.kmalloc (h : Heap) (size : Nat) : Option Buffer × Heap :=
  (h.answer 0 size,
    { answer := fun n => h.answer (n + 1)
      zero := fun n => h.zero (n + 1)
      limit := fun n => h.limit (n + 1) })

/-- The bytes that `memcpy` copies for an `int` count with the bits of `n`. -/
def intCount (n : Nat) : Nat := if n < 2 ^ 31 then n else 0

/-! ## Volumes -/

structure Ext2Inode where
  iSize : Nat
  iBlock : Nat → Nat

/-- The inode that starts at `buffer`. -/
def inodeAt (buffer : Buffer) : Ext2Inode where
  iSize := Memory.load32 buffer 4
  iBlock := fun i => Memory.load32 buffer (40 + 4 * i)

/-- `class Ext2Mount`: what mounting has found out, and the driver of the
device. -/
structure Ext2Mount (σ : Type) where
  driver : BlockDriver σ
  deviceBlockSize : Nat
  inodesPerGroup : Nat
  inodeTable : Nat → Nat
  groupCount : Nat
  blockSize : Nat
  inodeSize : Nat
  ptrsPerBlock : Nat

/-- What reading changes, and what an unset array on the stack holds. -/
structure Volume (σ : Type) where
  device : σ
  heap : Heap
  stack : Buffer

namespace Ext2Mount

variable {σ : Type} (m : Ext2Mount σ)

/-- `device_->read`, where `BlockDevice::read` asks for a temporary block if its
own is too small. -/
def deviceRead (v : Volume σ) (pos : Nat) (buffer : Buffer) (size : Nat) :
    ReturnCode × Buffer × Volume σ :=
  let (temp, heap) :=
    if BlockDriver.tempBlockSize < m.deviceBlockSize then v.heap.kmalloc m.deviceBlockSize
    else (none, v.heap)
  let (code, buffer', device) :=
    m.driver.read m.deviceBlockSize temp v.stack v.device pos (some buffer) size
  (code, buffer'.getD buffer, { v with device := device, heap := heap })

/-- `Ext2Mount::read_inode`. -/
def readInode (v : Volume σ) (ino : Nat) : Option (Option Ext2Inode × Volume σ) :=
  if ino = 0 then some (none, v)
  else
    let index := ino - 1
    if m.inodesPerGroup = 0 then none
    else
      let group := index / m.inodesPerGroup
      if m.groupCount ≤ group then some (none, v)
      else
        let offset := (index % m.inodesPerGroup * m.inodeSize) % 2 ^ 32
        let byteOffset := m.inodeTable group * m.blockSize + offset
        match v.heap.kmalloc m.inodeSize with
        | (none, heap) => some (none, { v with heap := heap })
        | (some temp, heap) =>
            let (code, temp, v) :=
              m.deviceRead { v with heap := heap } (byteOffset % 2 ^ 32) temp m.inodeSize
            if code ≠ .ok then some (none, v) else some (some (inodeAt temp), v)

/-- `Ext2Mount::get_block`. -/
def getBlock (inode : Ext2Inode) (v : Volume σ) (blockIndex : Nat) : Option Nat × Volume σ :=
  if blockIndex < 12 then
    (if inode.iBlock blockIndex = 0 then none else some (inode.iBlock blockIndex), v)
  else
    let i := blockIndex - 12
    if i < m.ptrsPerBlock then
      let indirect := inode.iBlock 12
      if indirect = 0 then (none, v)
      else
        match v.heap.kmalloc m.blockSize with
        | (none, heap) => (none, { v with heap := heap })
        | (some entries, heap) =>
            let (code, entries, v) := m.deviceRead { v with heap := heap }
              (indirect * m.blockSize % 2 ^ 32) entries m.blockSize
            if code ≠ .ok then (none, v)
            else
              let block := Memory.load32 entries (4 * i)
              (if block = 0 then none else some block, v)
    else (none, v)

/-- The local variables of `read_file_data`, and the bytes that its `memcpy`
has moved. -/
structure FileRead (σ : Type) where
  volume : Volume σ
  blockBuffer : Buffer
  buffer : Buffer
  size : Nat
  totalRead : Nat
  blockIndex : Nat
  blockOffset : Nat
  moved : Nat

/-- The loop of `read_file_data`, with `fuel` at least `size`. -/
def readLoop (inode : Ext2Inode) : Nat → FileRead σ → FileRead σ
  | 0, r => r
  | fuel + 1, r =>
      if r.size = 0 then r
      else
        let (block, v) := m.getBlock inode r.volume r.blockIndex
        let r := { r with volume := v }
        match block with
        | none => r
        | some block =>
            let (code, blockBuffer, v) :=
              m.deviceRead r.volume (block * m.blockSize % 2 ^ 32) r.blockBuffer m.blockSize
            let r := { r with volume := v, blockBuffer := blockBuffer }
            if code ≠ .ok then r
            else
              let chunk := BlockDriver.headChunk m.blockSize r.blockOffset r.size
              readLoop inode fuel
                { r with
                  buffer := memcpy r.buffer r.totalRead r.blockBuffer r.blockOffset (intCount chunk)
                  size := r.size - chunk
                  totalRead := (r.totalRead + chunk) % 2 ^ 32
                  blockIndex := (r.blockIndex + 1) % 2 ^ 32
                  blockOffset := 0
                  moved := r.moved + intCount chunk }

/-- What a read returns: the count, the bytes moved and the buffer. -/
structure ReadResult where
  ret : Nat
  moved : Nat
  buffer : Option Buffer

/-- `if (offset + size > inode.i_size) size = inode.i_size - offset;` -/
def clip (inode : Ext2Inode) (offset size : Nat) : Nat :=
  if inode.iSize < (offset + size) % 2 ^ 32 then inode.iSize - offset else size

/-- `Ext2Mount::read_file_data`. -/
def readFileData (v : Volume σ) (inode : Ext2Inode) (offset : Nat) (buffer : Option Buffer)
    (size : Nat) : Option (ReadResult × Volume σ) :=
  match buffer with
  | none => some (⟨0, 0, none⟩, v)
  | some b =>
      if size = 0 then some (⟨0, 0, buffer⟩, v)
      else if inode.iSize ≤ offset then some (⟨0, 0, buffer⟩, v)
      else if m.blockSize = 0 then none
      else
        match v.heap.kmalloc m.blockSize with
        | (none, heap) => some (⟨0, 0, buffer⟩, { v with heap := heap })
        | (some blockBuffer, heap) =>
            let size := clip inode offset size
            let r := m.readLoop inode size
              { volume := { v with heap := heap }
                blockBuffer := blockBuffer
                buffer := b
                size := size
                totalRead := 0
                blockIndex := offset / m.blockSize
                blockOffset := offset % m.blockSize
                moved := 0 }
            some (⟨r.totalRead, r.moved, some r.buffer⟩, r.volume)

end Ext2Mount

/-! ## `Ext2RegularFile` -/

structure Ext2RegularFile (σ : Type) where
  mount : Option (Ext2Mount σ)
  inode : Nat
  volume : Volume σ

/-- `Ext2RegularFile::read`. -/
def Ext2RegularFile.read {σ : Type} (f : Ext2RegularFile σ) (pos : Nat) (buffer : Option Buffer)
    (size : Nat) : Option (Ext2Mount.ReadResult × Volume σ) :=
  match f.mount with
  | none => some (⟨0, 0, buffer⟩, f.volume)
  | some m =>
      match m.readInode f.volume f.inode with
      | none => none
      | some (none, v) => some (⟨0, 0, buffer⟩, v)
      | some (some inode, v) => m.readFileData v inode pos buffer size

end KmOS
