/-
# `KmOS.Block.Model` — `BlockDevice::read` and `BlockDevice::write`

A block device moves whole blocks; `block_device.cc` makes byte ranges out of
them.  A request is served in three parts: the rest of the first block when it
does not start at a block boundary, whole blocks straight from or to the
caller's buffer, and the beginning of one more block.  The first and the last
part go through a temporary block.

**The driver.**  `read_blocks` and `write_blocks` are pure virtual, so they are
parameters here (`BlockDriver`), acting on a device state of any type.

**The two branches.**  The source has every part twice, once with a temporary
block from `kmalloc` (`block_size_ > 1024`) and once with one on the stack.  The
texts agree apart from the `kfree` calls, so the parts are defined once, over
whatever the temporary block first holds.

A buffer is the memory from its pointer on, byte by byte.
-/
import Mathlib.Algebra.Ring.Nat
import Mathlib.Logic.Basic

namespace KmOS

/-- The codes of `types.h` these functions return. -/
inductive ReturnCode
  | ok
  | errorMemory
  | errorParam
  | failure
  deriving DecidableEq

/-- The bytes from a pointer on. -/
abbrev Buffer := Nat → UInt8

/-- `memcpy(dst + d, src + s, n)`. -/
def memcpy (dst : Buffer) (d : Nat) (src : Buffer) (s n : Nat) : Buffer :=
  fun i => if d ≤ i ∧ i < d + n then src (s + (i - d)) else dst i

/-- The buffer `buffer + n`. -/
def Buffer.drop (buffer : Buffer) (n : Nat) : Buffer := fun i => buffer (n + i)

/-- `buffer` after something was written through `buffer + n`. -/
def Buffer.splice (buffer : Buffer) (n : Nat) (tail : Buffer) : Buffer :=
  fun i => if n ≤ i then tail (i - n) else buffer i

/-- The virtual functions of a device in state `σ`. -/
structure BlockDriver (σ : Type) where
  readBlocks : σ → (lba count : Nat) → Buffer → ReturnCode × Buffer × σ
  writeBlocks : σ → (lba count : Nat) → Buffer → ReturnCode × σ

/-- The local variables of a request, and the memory it works on.  `index` is
how far `buffer` has moved. -/
structure Request (σ : Type) where
  lba : Nat
  index : Nat
  total : Nat
  buffer : Buffer
  temp : Buffer
  device : σ

/-- The local variables after `n` bytes and one block. -/
def Request.advance {σ : Type} (p : Request σ) (n : Nat) : Request σ :=
  { p with
    lba := (p.lba + 1) % 2 ^ 32
    index := p.index + n
    total := p.total - n }

namespace BlockDriver

variable {σ : Type} (drv : BlockDriver σ) (blockSize : Nat)

/-- `sizeof(temp_block)`. -/
def tempBlockSize : Nat := 1024

/-- `u32 chunk = block_size_ - offset; if (chunk > total) chunk = total;` -/
def headChunk (blockSize offset total : Nat) : Nat :=
  let chunk := blockSize - offset
  if total < chunk then total else chunk

/-! ## Reading -/

def readHead (offset : Nat) (p : Request σ) : ReturnCode × Request σ :=
  if offset = 0 then (.ok, p)
  else
    let (code, temp, device) := drv.readBlocks p.device p.lba 1 p.temp
    let p := { p with temp := temp, device := device }
    if code ≠ .ok then (.failure, p)
    else
      let chunk := headChunk blockSize offset p.total
      (.ok, Request.advance
        { p with buffer := memcpy p.buffer p.index temp offset chunk } chunk)

/-- `while (total >= block_size_)`, with `fuel` at least `total`. -/
def readWhole : Nat → Request σ → ReturnCode × Request σ
  | 0, p => (.ok, p)
  | fuel + 1, p =>
      if blockSize ≤ p.total then
        let (code, tail, device) := drv.readBlocks p.device p.lba 1 (p.buffer.drop p.index)
        let p := { p with buffer := p.buffer.splice p.index tail, device := device }
        if code ≠ .ok then (.failure, p)
        else readWhole fuel (Request.advance p blockSize)
      else (.ok, p)

def readTail (p : Request σ) : ReturnCode × Request σ :=
  if p.total = 0 then (.ok, p)
  else
    let (code, temp, device) := drv.readBlocks p.device p.lba 1 p.temp
    let p := { p with temp := temp, device := device }
    if code ≠ .ok then (.failure, p)
    else (.ok, { p with buffer := memcpy p.buffer p.index temp 0 p.total })

/-- The three parts, one after another. -/
def readParts (offset : Nat) (p : Request σ) : ReturnCode × Request σ :=
  match drv.readHead blockSize offset p with
  | (.ok, p) =>
      match drv.readWhole blockSize p.total p with
      | (.ok, p) => drv.readTail p
      | r => r
  | r => r

/-- `BlockDevice::read`.  `heap` says whether `kmalloc` succeeds and what the
memory it returns holds, `stack` what `temp_block` holds at first; a null
`buffer` is `none`. -/
def read (heap : Option Buffer) (stack : Buffer) (device : σ) (pos : Nat) (buffer : Option Buffer)
    (size : Nat) : ReturnCode × Option Buffer × σ :=
  match buffer with
  | none => (.errorParam, none, device)
  | some b =>
      if size = 0 then (.errorParam, buffer, device)
      else
        let lba := pos / blockSize
        let offset := pos % blockSize
        let run := fun temp =>
          let (code, p) := drv.readParts blockSize offset
            { lba := lba, index := 0, total := size, buffer := b, temp := temp, device := device }
          (code, some p.buffer, p.device)
        if tempBlockSize < blockSize then
          match heap with
          | none => (.errorMemory, buffer, device)
          | some temp => run temp
        else run stack

/-! ## Writing -/

def writeHead (offset : Nat) (p : Request σ) : ReturnCode × Request σ :=
  if offset = 0 then (.ok, p)
  else
    let (code, temp, device) := drv.readBlocks p.device p.lba 1 p.temp
    let p := { p with temp := temp, device := device }
    if code ≠ .ok then (.failure, p)
    else
      let chunk := headChunk blockSize offset p.total
      let p := { p with temp := memcpy p.temp offset p.buffer p.index chunk }
      let (code, device) := drv.writeBlocks p.device p.lba 1 p.temp
      let p := { p with device := device }
      if code ≠ .ok then (.failure, p)
      else (.ok, Request.advance p chunk)

def writeWhole : Nat → Request σ → ReturnCode × Request σ
  | 0, p => (.ok, p)
  | fuel + 1, p =>
      if blockSize ≤ p.total then
        let (code, device) := drv.writeBlocks p.device p.lba 1 (p.buffer.drop p.index)
        let p := { p with device := device }
        if code ≠ .ok then (.failure, p)
        else writeWhole fuel (Request.advance p blockSize)
      else (.ok, p)

def writeTail (p : Request σ) : ReturnCode × Request σ :=
  if p.total = 0 then (.ok, p)
  else
    let (code, temp, device) := drv.readBlocks p.device p.lba 1 p.temp
    let p := { p with temp := temp, device := device }
    if code ≠ .ok then (.failure, p)
    else
      let p := { p with temp := memcpy p.temp 0 p.buffer p.index p.total }
      let (code, device) := drv.writeBlocks p.device p.lba 1 p.temp
      let p := { p with device := device }
      if code ≠ .ok then (.failure, p) else (.ok, p)

def writeParts (offset : Nat) (p : Request σ) : ReturnCode × Request σ :=
  match drv.writeHead blockSize offset p with
  | (.ok, p) =>
      match drv.writeWhole blockSize p.total p with
      | (.ok, p) => drv.writeTail p
      | r => r
  | r => r

/-- `BlockDevice::write`. -/
def write (heap : Option Buffer) (stack : Buffer) (device : σ) (pos : Nat) (buffer : Option Buffer)
    (size : Nat) : ReturnCode × σ :=
  match buffer with
  | none => (.errorParam, device)
  | some b =>
      if size = 0 then (.errorParam, device)
      else
        let lba := pos / blockSize
        let offset := pos % blockSize
        let run := fun temp =>
          let (code, p) := drv.writeParts blockSize offset
            { lba := lba, index := 0, total := size, buffer := b, temp := temp, device := device }
          (code, p.device)
        if tempBlockSize < blockSize then
          match heap with
          | none => (.errorMemory, device)
          | some temp => run temp
        else run stack

end BlockDriver

end KmOS
