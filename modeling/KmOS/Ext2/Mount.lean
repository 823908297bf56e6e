/-
# `KmOS.Ext2.Mount` — mounting an ext2 volume

`Ext2Mount::initialize`.  A shift by 32 or more is undefined and a division by
zero traps; behind either of them the function is `stopped`.

**What is recorded.**  Apart from what a function returns, some of what it does
on the way is of interest: what it shifts and divides by, what it asks the
device for, and what it copies.  `Action` names these, and the functions that
end in `Actions` list them for the functions of `KmOS.Ext2.Model`, in order.

**What is left out.**  The fields of the superblock and of the group descriptors
that no modelled function reads, and `kfree`.
-/
import KmOS.Ext2.Model

namespace KmOS

/-- What a function does to its operands, the device and memory.  `copy` is a
`memcpy` of `count` bytes out of a buffer that `available` bytes have been read
into. -/
inductive Action
  | shift (count : Nat)
  | divide (divisor : Nat)
  | read (pos size : Nat)
  | copy (count available : Nat)
  deriving DecidableEq

/-- The `u16` at `i`. -/
def Buffer.load16 (b : Buffer) (i : Nat) : Nat := (b i).toNat + 256 * (b (i + 1)).toNat

/-! ## The superblock -/

def ext2SuperMagic : Nat := 0xEF53

def sizeofSuperBlock : Nat := 1024

def sizeofGroupDesc : Nat := 32

def sizeofInode : Nat := 128

/-- `struct ext2_super_block`. -/
structure Ext2SuperBlock where
  sBlocksCount : Nat
  sLogBlockSize : Nat
  sBlocksPerGroup : Nat
  sInodesPerGroup : Nat
  sMagic : Nat
  sInodeSize : Nat

/-- The superblock that starts at `buffer`. -/
def superBlockAt (buffer : Buffer) : Ext2SuperBlock where
  sBlocksCount := Memory.load32 buffer 4
  sLogBlockSize := Memory.load32 buffer 24
  sBlocksPerGroup := Memory.load32 buffer 32
  sInodesPerGroup := Memory.load32 buffer 40
  sMagic := buffer.load16 56
  sInodeSize := buffer.load16 88

namespace Ext2SuperBlock

variable (sb : Ext2SuperBlock)

/-- `1024u << s_log_block_size`. -/
def blockSize : Nat := 1024 * 2 ^ sb.sLogBlockSize % 2 ^ 32

/-- `s_inode_size ? s_inode_size : 128`. -/
def inodeSize : Nat := if sb.sInodeSize ≠ 0 then sb.sInodeSize else 128

/-- `(s_blocks_count + s_blocks_per_group - 1) / s_blocks_per_group`. -/
def groupCount : Nat :=
  (sb.sBlocksCount + sb.sBlocksPerGroup - 1) % 2 ^ 32 / sb.sBlocksPerGroup

/-- `group_count_ * sizeof(ext2_group_desc)`. -/
def tableSize : Nat := sb.groupCount * sizeofGroupDesc % 2 ^ 32

end Ext2SuperBlock

/-! ## `initialize` -/

/-- How mounting ends. -/
inductive MountResult (σ : Type)
  | stopped
  | failed (v : Volume σ)
  | mounted (m : Ext2Mount σ) (v : Volume σ)

namespace Ext2Mount

variable {σ : Type}

/-- `Ext2Mount::Ext2Mount`. -/
def new (driver : BlockDriver σ) (deviceBlockSize : Nat) : Ext2Mount σ where
  driver := driver
  deviceBlockSize := deviceBlockSize
  inodesPerGroup := 0
  inodeTable := fun _ => 0
  groupCount := 0
  blockSize := 1024
  inodeSize := 128
  ptrsPerBlock := 256

/-- The fields that `initialize` takes from the superblock. -/
def withSuper (m : Ext2Mount σ) (sb : Ext2SuperBlock) : Ext2Mount σ :=
  { m with
    inodesPerGroup := sb.sInodesPerGroup
    groupCount := sb.groupCount
    blockSize := sb.blockSize
    inodeSize := sb.inodeSize
    ptrsPerBlock := sb.blockSize / 4 }

/-- `groups_[group].bg_inode_table`, for every group. -/
def withGroups (m : Ext2Mount σ) (groups : Buffer) : Ext2Mount σ :=
  { m with inodeTable := fun group => Memory.load32 groups (group * sizeofGroupDesc + 8) }

/-- The local variables of the loop that reads the group descriptors. -/
structure TableRead (σ : Type) where
  volume : Volume σ
  groups : Buffer
  temp : Buffer
  remaining : Nat
  dest : Nat
  block : Nat
  log : List Action

/-- `while (remaining > 0)`, with `fuel` greater than `remaining`. -/
def tableLoop (m : Ext2Mount σ) : Nat → TableRead σ → Bool × TableRead σ
  | 0, t => (false, t)
  | fuel + 1, t =>
      if t.remaining = 0 then (true, t)
      else
        let pos := t.block * m.blockSize % 2 ^ 32
        let (code, temp, v) := m.deviceRead t.volume pos t.temp m.blockSize
        let t := { t with volume := v, temp := temp, log := t.log ++ [.read pos m.blockSize] }
        if code ≠ .ok then (false, t)
        else
          let copy := if t.remaining < m.blockSize then t.remaining else m.blockSize
          tableLoop m fuel
            { t with
              groups := memcpy t.groups t.dest t.temp 0 (intCount copy)
              dest := (t.dest + copy) % 2 ^ 32
              remaining := t.remaining - copy
              block := (t.block + 1) % 2 ^ 32
              log := t.log ++ [.copy (intCount copy) m.blockSize] }

/-- `initialize` once the superblock has been found to be one. -/
def readGroups (m : Ext2Mount σ) (sb : Ext2SuperBlock) (v : Volume σ) (log : List Action) :
    MountResult σ × List Action :=
  match v.heap.kmalloc sb.tableSize with
  | (none, heap) => (.failed { v with heap := heap }, log)
  | (some groups, heap) =>
      let m := m.withSuper sb
      match heap.kmalloc m.blockSize with
      | (none, heap) => (.failed { v with heap := heap }, log)
      | (some temp, heap) =>
          let (ok, t) := m.tableLoop (sb.tableSize + 1)
            { volume := { v with heap := heap }
              groups := groups
              temp := temp
              remaining := sb.tableSize
              dest := 0
              block := if m.blockSize = 1024 then 2 else 1
              log := log }
          if ok = false then (.failed t.volume, t.log)
          else (.mounted (m.withGroups t.groups) t.volume, t.log)

/-- `Ext2Mount::initialize`.  `super` is what `super_` holds at first; there is no
device without a `driver`. -/
def initializeMount (driver : Option (BlockDriver σ)) (deviceBlockSize : Nat) (v : Volume σ)
    (super : Buffer) : MountResult σ × List Action :=
  match driver with
  | none => (.failed v, [])
  | some driver =>
      let m := new driver deviceBlockSize
      let (code, super, v) := m.deviceRead v 1024 super sizeofSuperBlock
      let log := [.read 1024 sizeofSuperBlock]
      if code ≠ .ok then (.failed v, log)
      else
        let sb := superBlockAt super
        if sb.sMagic ≠ ext2SuperMagic then (.failed v, log)
        else
          let log := log ++ [.shift sb.sLogBlockSize]
          if 32 ≤ sb.sLogBlockSize then (.stopped, log)
          else
            let log := log ++ [.divide sb.sBlocksPerGroup]
            if sb.sBlocksPerGroup = 0 then (.stopped, log)
            else if sb.groupCount = 0 then (.failed v, log)
            else m.readGroups sb v log

/-! ## What reading does -/

variable (m : Ext2Mount σ)

/-- The byte position that `read_inode` passes to the device. -/
def inodePosition (ino : Nat) : Nat :=
  let index := ino - 1
  let offset := index % m.inodesPerGroup * m.inodeSize % 2 ^ 32
  (m.inodeTable (index / m.inodesPerGroup) * m.blockSize + offset) % 2 ^ 32

/-- The byte position that the other functions pass to the device for a block. -/
def blockPosition (block : Nat) : Nat := block * m.blockSize % 2 ^ 32

/-- What `read_inode` does. -/
def readInodeActions (v : Volume σ) (ino : Nat) : List Action :=
  if ino = 0 then []
  else if m.inodesPerGroup = 0 then [.divide m.inodesPerGroup]
  else if m.groupCount ≤ (ino - 1) / m.inodesPerGroup then [.divide m.inodesPerGroup]
  else
    match v.heap.kmalloc m.inodeSize with
    | (none, _) => [.divide m.inodesPerGroup]
    | (some temp, heap) =>
        let (code, _, _) :=
          m.deviceRead { v with heap := heap } (m.inodePosition ino) temp m.inodeSize
        [.divide m.inodesPerGroup, .read (m.inodePosition ino) m.inodeSize] ++
          (if code ≠ .ok then [] else [.copy sizeofInode m.inodeSize])

end Ext2Mount

end KmOS
