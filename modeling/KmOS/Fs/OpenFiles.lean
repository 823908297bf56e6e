/-
# `KmOS.Fs.OpenFiles` — the open files of all processes

Every process has descriptors of its own: `open`, `close` and `dup2` change those of the
process that calls them, `fork` copies the ones in use, and `create` takes three from the
parent or opens the terminal three times.  `read` and `write` go through the offset of the
descriptor.

The files are regular files of one mounted volume (`regular`), which all of them share, or
of other kinds; what the latter answer to `read` and `write` comes with the call.

**What is left out.**  `ioctl`, `mmap`, `sbrk` and `getdents`, which leave the offsets of
regular files alone, signals, and `open` and `close` of a file itself, which do nothing for
regular files.  `fsm.path` is a parameter: the calls are given what it finds.
-/
import KmOS.Fs.Descriptor

namespace KmOS

def OpenFile.none : OpenFile := ⟨0, 0, 0⟩

/-- `Process::openfp`. -/
abbrev FileSlots := UInt32 → OpenFile

namespace FileSlots

/-- As the constructor leaves them. -/
def empty : FileSlots := fun _ => .none

/-- The first slot that is free, from `i` on, with `n` to go. -/
def firstFree (slots : FileSlots) : Nat → Nat → Option UInt32
  | 0, _ => .none
  | n + 1, i =>
      if (slots (.ofNat i)).fp = 0 then some (.ofNat i) else firstFree slots n (i + 1)

/-- `Process::addFile`. -/
def addFile (slots : FileSlots) (f : Nat) (m : UInt32) : UInt32 × FileSlots :=
  if f = 0 then (0xFFFFFFFF, slots)
  else
    match slots.firstFree configMaxFile.toNat 0 with
    | .none => (0xFFFFFFFF, slots)
    | some fd => (fd, Function.update slots fd ⟨m, 0, f⟩)

/-- `Process::deleteFile`. -/
def deleteFile (slots : FileSlots) (fd : UInt32) : FileSlots :=
  if configMaxFile ≤ fd then slots else Function.update slots fd .none

/-- `Process::setFile`. -/
def setFile (slots : FileSlots) (fd : UInt32) (file : Nat) (mode ptr : UInt32) : FileSlots :=
  if fd < configMaxFile then Function.update slots fd ⟨mode, ptr, file⟩ else slots

/-- What `fork` copies. -/
def forked (slots : FileSlots) : FileSlots := fun fd =>
  if (slots fd).fp ≠ 0 then slots fd else .none

/-- What `create` makes of the slots of the parent. -/
def inherited (parent : FileSlots) : FileSlots := fun fd => if fd < 3 then parent fd else .none

end FileSlots

/-! ## The state -/

structure OpenFiles (σ : Type) where
  /-- The slots of the processes that there are. -/
  openfp : Nat → Option FileSlots
  /-- The next process. -/
  next : Nat
  volume : Volume σ

namespace OpenFiles

variable {σ : Type} (m : Ext2Mount σ) (regular : Nat → Option Nat) (s : OpenFiles σ)

def setSlots (p : Nat) (slots : FileSlots) : OpenFiles σ :=
  { s with openfp := Function.update s.openfp p (some slots) }

/-- A process more. -/
def spawn (slots : FileSlots) : OpenFiles σ :=
  { s.setSlots s.next slots with next := s.next + 1 }

/-! ## The calls -/

/-- `call_open`; without a file `fp->open` traps. -/
def callOpen (p fp : Nat) (flag : UInt32) : Option (UInt32 × OpenFiles σ) := do
  let slots ← s.openfp p
  if fp = 0 then none
  else
    let (fd, slots) := slots.addFile fp flag
    some (fd, s.setSlots p slots)

/-- `call_close`. -/
def callClose (p : Nat) (fd : UInt32) : Option (OpenFiles σ) := do
  let slots ← s.openfp p
  if getFile slots fd = 0 then some s else some (s.setSlots p (slots.deleteFile fd))

/-- `call_read`: what it answers, and the buffer. -/
def callRead (p : Nat) (fd : UInt32) (buf : Option Buffer) (size : UInt32)
    (other : UInt32 × Option Buffer) : Option ((UInt32 × Option Buffer) × OpenFiles σ) := do
  let slots ← s.openfp p
  let fp := getFile slots fd
  if fp = 0 then some ((0xFFFFFFFF, buf), s)
  else
    let info := slots fd
    let moved := fun ret : UInt32 =>
      s.setSlots p (Function.update slots fd { info with ptr := info.ptr + ret })
    match regular fp with
    | none => some (other, moved other.1)
    | some ino =>
        let (r, v) ← Ext2RegularFile.read ⟨some m, ino, s.volume⟩ info.ptr.toNat buf size.toNat
        let ret := UInt32.ofNat r.ret
        some ((ret, r.buffer), { moved ret with volume := v })

/-- `call_write`; a regular file has the `write` of `File`. -/
def callWrite (p : Nat) (fd : UInt32) (other : UInt32) : Option (UInt32 × OpenFiles σ) := do
  let slots ← s.openfp p
  let fp := getFile slots fd
  if fp = 0 then some (0xFFFFFFFF, s)
  else
    let info := slots fd
    let ret := if (regular fp).isSome then Reply.notDefined.toUInt32 else other
    some (ret, s.setSlots p (Function.update slots fd { info with ptr := info.ptr + ret }))

/-- `call_dup2`. -/
def callDup2 (p : Nat) (oldfd newfd : UInt32) : Option (UInt32 × OpenFiles σ) := do
  let slots ← s.openfp p
  some (newfd, s.setSlots p (slots.setFile newfd (getFile slots oldfd) 0 0))

/-- `Process::fork`; `made` is whether its memory can be made. -/
def callFork (p : Nat) (made : Bool) : Option (OpenFiles σ) := do
  let slots ← s.openfp p
  if made = true then some (s.spawn slots.forked) else some s

/-- `Process::create`, for a process that is `self`. -/
def create (parent : Option Nat) (self tty : Nat) : Option (OpenFiles σ) :=
  match parent with
  | some q => do
      let slots ← s.openfp q
      some (s.spawn (slots.inherited.addFile self 0).2)
  | none =>
      let terminal := fun slots : FileSlots => (slots.addFile tty 0).2
      some (s.spawn (terminal (terminal (terminal .empty))))

/-- `execv`: the file is read as a whole into `buf`, and a process is made. -/
def execv (fp : Nat) (buf : Option Buffer) (size : UInt32) (self tty : Nat) :
    Option (OpenFiles σ) :=
  match regular fp with
  | none => s.create none self tty
  | some ino => do
      let (_, v) ← Ext2RegularFile.read ⟨some m, ino, s.volume⟩ 0 buf size.toNat
      { s with volume := v }.create none self tty

/-- A process is destroyed. -/
def destroy (p : Nat) : OpenFiles σ := { s with openfp := Function.update s.openfp p none }

end OpenFiles

end KmOS
