/-
# `KmOS.Fs.Descriptor` — `call_read`, `call_write` and the files behind them

`call_read` and `call_write` call the virtual `read` and `write` of the file
behind a descriptor and add the `u32` that comes back to the offset.  What that
number means is up to the class: a code of `types.h`, or a count.  `Reply`
keeps the two apart, as the `return` statements do; `Reply.toUInt32` is what
the caller gets to see.

`Transfer.moved` counts the bytes that went between the file and the caller's
buffer, at the places where they are copied.

The arguments of the calls are parameters, and so is the answer of `setRet`:
`getArg` and `setRet` are stubs.
-/
import Mathlib.Logic.Function.Basic
import KmOS.Ext2.Model

namespace KmOS

/-! ## Replies -/

inductive Reply
  | code (c : ReturnCode)
  | notDefined
  | count (n : Nat)

/-- The numbers of `types.h`. -/
def ReturnCode.toUInt32 : ReturnCode → UInt32
  | .ok => 0
  | .errorMemory => 0xFFFFFFFE
  | .errorParam => 0xFFFFFFFC
  | .failure => 0xFFFFFF80

def Reply.toUInt32 : Reply → UInt32
  | .code c => c.toUInt32
  | .notDefined => 0xFFFFFFFF
  | .count n => UInt32.ofNat n

/-- The reply is a code, and not `RETURN_OK`. -/
def Reply.isError : Reply → Bool
  | .code c => c ≠ .ok
  | .notDefined => true
  | .count _ => false

/-! ## Files -/

/-- `class BlockDevice`. -/
structure BlockDevice (σ : Type) where
  driver : BlockDriver σ
  blockSize : Nat
  device : σ
  heap : Heap
  stack : Buffer

/-- The kinds of files; `value` is what `value_` points to, without the byte that
ends it. -/
inductive FileObject (σ : Type)
  | file
  | blockDevice (d : BlockDevice σ)
  | variable (value : Option (List UInt8)) (heap : Heap)
  | ext2RegularFile (f : Ext2RegularFile σ)

/-- What a `read` or `write` comes to. -/
structure Transfer (σ : Type) where
  reply : Reply
  moved : Nat
  buffer : Option Buffer
  object : FileObject σ

variable {σ : Type}

/-- The bytes that a request has moved when its last part is done: those that
`buffer` has passed, and the last ones. -/
def Request.moved (p : Request σ) : Nat := p.index + p.total

namespace BlockDevice

variable (d : BlockDevice σ)

/-- The answer to `kmalloc(block_size_)`, where it is asked for. -/
def temp : Option Buffer × Heap :=
  if BlockDriver.tempBlockSize < d.blockSize then d.heap.kmalloc d.blockSize else (none, d.heap)

/-- The request that `read` and `write` make of their arguments. -/
def request (pos : Nat) (b : Buffer) (size : Nat) : Request σ where
  lba := pos / d.blockSize
  index := 0
  total := size
  buffer := b
  temp := d.temp.1.getD d.stack
  device := d.device

/-- `BlockDevice::read`, and what it has moved. -/
def read (pos : Nat) (buffer : Option Buffer) (size : Nat) : Transfer σ :=
  let (code, buffer', device) :=
    d.driver.read d.blockSize d.temp.1 d.stack d.device pos buffer size
  let moved := match buffer with
    | none => 0
    | some b => (d.driver.readParts d.blockSize (pos % d.blockSize) (d.request pos b size)).2.moved
  { reply := .code code, moved := moved, buffer := buffer',
    object := .blockDevice { d with device := device, heap := d.temp.2 } }

/-- `BlockDevice::write`, and what it has moved. -/
def write (pos : Nat) (buffer : Option Buffer) (size : Nat) : Transfer σ :=
  let (code, device) := d.driver.write d.blockSize d.temp.1 d.stack d.device pos buffer size
  let moved := match buffer with
    | none => 0
    | some b => (d.driver.writeParts d.blockSize (pos % d.blockSize) (d.request pos b size)).2.moved
  { reply := .code code, moved := moved, buffer := buffer,
    object := .blockDevice { d with device := device, heap := d.temp.2 } }

end BlockDevice

/-- `strnlen`; its bound is an `int`. -/
def strnlen (s : List UInt8) (maxlen : Nat) : Nat :=
  ((s.take (intCount maxlen)).takeWhile (· ≠ 0)).length

/-- The bytes that `strncpy` stores: up to the bound, and never more than 255. -/
def strncpyCount (s : List UInt8) (maxLength : Nat) : Nat :=
  let bound := if 255 < maxLength then 255 else maxLength
  let n := ((s.take bound).takeWhile (· ≠ 0)).length
  if n < bound then n + 1 else n

namespace FileObject

/-- `Variable::read`.  Without a buffer `strncpy` does nothing. -/
def readVariable (value : Option (List UInt8)) (heap : Heap) (buffer : Option Buffer)
    (size : Nat) : Transfer σ :=
  match value with
  | none => ⟨.notDefined, 0, buffer, .variable none heap⟩
  | some v =>
      let readSize := strnlen v size
      match buffer with
      | none => ⟨.count readSize, 0, none, .variable value heap⟩
      | some b =>
          let n := strncpyCount v readSize
          ⟨.count readSize, n, some (memcpy b 0 (fun i => v.getD i 0) 0 n), .variable value heap⟩

/-- `Variable::write`. -/
def writeVariable (heap : Heap) (buffer : Option Buffer) (size : Nat) : Transfer σ :=
  match heap.kmalloc ((size + 1) % 2 ^ 32) with
  | (none, heap) => ⟨.notDefined, 0, buffer, .variable none heap⟩
  | (some block, heap) =>
      let value := memcpy block 0 (buffer.getD fun _ => 0) 0 (intCount size)
      ⟨.count size, intCount size, buffer, .variable ((List.range size).map value) heap⟩

/-- The virtual function `read`; `none` if it traps. -/
def read (o : FileObject σ) (pos : UInt32) (buffer : Option Buffer) (size : UInt32) :
    Option (Transfer σ) :=
  match o with
  | .file => some ⟨.notDefined, 0, buffer, o⟩
  | .blockDevice d => some (d.read pos.toNat buffer size.toNat)
  | .variable value heap => some (readVariable value heap buffer size.toNat)
  | .ext2RegularFile f =>
      match f.read pos.toNat buffer size.toNat with
      | none => none
      | some (r, v) =>
          some ⟨.count r.ret, r.moved, r.buffer, .ext2RegularFile { f with volume := v }⟩

/-- The virtual function `write`; an ext2 file has that of `File`. -/
def write (o : FileObject σ) (pos : UInt32) (buffer : Option Buffer) (size : UInt32) :
    Option (Transfer σ) :=
  match o with
  | .file => some ⟨.notDefined, 0, buffer, o⟩
  | .blockDevice d => some (d.write pos.toNat buffer size.toNat)
  | .variable _ heap => some (writeVariable heap buffer size.toNat)
  | .ext2RegularFile _ => some ⟨.notDefined, 0, buffer, o⟩

end FileObject

/-! ## The calls -/

def configMaxFile : UInt32 := 32

/-- `struct openfile`; 0 is no file. -/
structure OpenFile where
  mode : UInt32
  ptr : UInt32
  fp : Nat

/-- The descriptors of the process that runs, if one does, and the files. -/
structure Descriptors (σ : Type) where
  openfp : Option (UInt32 → OpenFile)
  object : Nat → FileObject σ

/-- `Process::getFile`. -/
def getFile (openfp : UInt32 → OpenFile) (fd : UInt32) : Nat :=
  if configMaxFile ≤ fd then 0 else (openfp fd).fp

namespace Descriptors

/-- The text of `call_read` and `call_write`, which differ in the function they
call: the answer, the buffer and the state; `none` if the call traps. -/
def call (op : FileObject σ → UInt32 → Option Buffer → UInt32 → Option (Transfer σ))
    (s : Descriptors σ) (fd : UInt32) (buf : Option Buffer) (size : UInt32) :
    Option (UInt32 × Option Buffer × Descriptors σ) :=
  match s.openfp with
  | none => some (0xFFFFFFFF, buf, s)
  | some openfp =>
      let fp := getFile openfp fd
      if fp = 0 then some (0xFFFFFFFF, buf, s)
      else
        let info := openfp fd
        match op (s.object fp) info.ptr buf size with
        | none => none
        | some t =>
            let ret := t.reply.toUInt32
            some (ret, t.buffer,
              { openfp := some (Function.update openfp fd { info with ptr := info.ptr + ret })
                object := Function.update s.object fp t.object })

def callRead (s : Descriptors σ) (fd : UInt32) (buf : Option Buffer) (size : UInt32) :
    Option (UInt32 × Option Buffer × Descriptors σ) :=
  s.call FileObject.read fd buf size

def callWrite (s : Descriptors σ) (fd : UInt32) (buf : Option Buffer) (size : UInt32) :
    Option (UInt32 × Option Buffer × Descriptors σ) :=
  s.call FileObject.write fd buf size

end Descriptors

end KmOS
