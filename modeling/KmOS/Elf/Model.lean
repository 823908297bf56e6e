/-
# `KmOS.Elf.Model` — the ELF loader

`load_elf` works on memory only: the file is somewhere in it, and the headers
are read where `file` and `e_phoff` point, again in each turn of the loop and
again after each copy.  So what a segment writes may change the headers that are
read after it.

**What is left out.**  The header fields that are not read, and the messages.
-/
import KmOS.Lib.WriteLog
import KmOS.Vmm.State

namespace KmOS

/-- `USER_OFFSET` and `USER_STACK`, as words. -/
def userOffset32 : UInt32 := UInt32.ofNat userOffset
def userStack32 : UInt32 := UInt32.ofNat userStack

def ptLoad : UInt32 := 1
def pfX : UInt32 := 1
def pfW : UInt32 := 2
def pfR : UInt32 := 4

namespace LoggedMemory

def load16 (m : LoggedMemory) (a : UInt32) : UInt16 :=
  (m.bytes a).toUInt16 ||| (m.bytes (a + 1)).toUInt16 <<< 8

def load32 (m : LoggedMemory) (a : UInt32) : UInt32 :=
  (m.bytes a).toUInt32 ||| (m.bytes (a + 1)).toUInt32 <<< 8 |||
    (m.bytes (a + 2)).toUInt32 <<< 16 ||| (m.bytes (a + 3)).toUInt32 <<< 24

/-- `memcpy`. -/
def memcpy (m : LoggedMemory) (dest src : UInt32) (n : Int32) : LoggedMemory :=
  m.storeRun dest (fun m i => m.bytes (src + i)) n.toInt.toNat 0

/-- `memset`. -/
def memset (m : LoggedMemory) (s : UInt32) (c : UInt8) (n : Int32) : LoggedMemory :=
  m.storeRun s (fun _ _ => c) n.toInt.toNat 0

/-! ## Headers -/

section Elf

variable (m : LoggedMemory) (p : UInt32)

def eEntry : UInt32 := m.load32 (p + 24)
def ePhoff : UInt32 := m.load32 (p + 28)
def ePhnum : UInt16 := m.load16 (p + 44)

def pType : UInt32 := m.load32 p
def pOffset : UInt32 := m.load32 (p + 4)
def pVaddr : UInt32 := m.load32 (p + 8)
def pFilesz : UInt32 := m.load32 (p + 16)
def pMemsz : UInt32 := m.load32 (p + 20)
def pFlags : UInt32 := m.load32 (p + 24)

/-- `is_elf`, when it returns `RETURN_OK`. -/
def IsElf : Prop :=
  m.bytes p = 0x7f ∧ m.bytes (p + 1) = 0x45 ∧ m.bytes (p + 2) = 0x4c ∧ m.bytes (p + 3) = 0x46

instance : Decidable (m.IsElf p) := by
  unfold IsElf
  infer_instance

end Elf

end LoggedMemory

/-- `sizeof(Elf32_Phdr)`. -/
def sizeofPhdr : UInt32 := 32

/-- The fields of `process_st` that `load_elf` writes. -/
structure ProcessSt where
  bExec : UInt32
  eExec : UInt32
  bBss : UInt32
  eBss : UInt32

/-- What `load_elf` works on. -/
structure Loader where
  mem : LoggedMemory
  proc : ProcessSt

namespace Loader

/-- `v_begin < USER_OFFSET || v_end > USER_STACK` does not hold. -/
def RangeOk (s : Loader) (e : UInt32) : Prop :=
  userOffset32 ≤ s.mem.pVaddr e ∧ s.mem.pVaddr e + s.mem.pMemsz e ≤ userStack32

instance (s : Loader) (e : UInt32) : Decidable (s.RangeOk e) := by
  unfold RangeOk
  infer_instance

/-- The bounds written down for the process. -/
def noteBounds (s : Loader) (e : UInt32) : Loader :=
  let vBegin := s.mem.pVaddr e
  let vEnd := s.mem.pVaddr e + s.mem.pMemsz e
  let proc := s.proc
  let proc :=
    if s.mem.pFlags e = pfX ||| pfR then { proc with bExec := vBegin, eExec := vEnd } else proc
  let proc :=
    if s.mem.pFlags e = pfW ||| pfR then { proc with bBss := vBegin, eBss := vEnd } else proc
  { s with proc := proc }

/-- The `memcpy` of a segment. -/
def copySegment (file : UInt32) (s : Loader) (e : UInt32) : Loader :=
  { s with
    mem := s.mem.memcpy (s.mem.pVaddr e) (file + s.mem.pOffset e) (s.mem.pFilesz e).toInt32 }

/-- The `memset` behind it. -/
def fillSegment (vBegin : UInt32) (s : Loader) (e : UInt32) : Loader :=
  if s.mem.pFilesz e < s.mem.pMemsz e then
    { s with
      mem := s.mem.memset (vBegin + s.mem.pFilesz e) 0
        (s.mem.pMemsz e - s.mem.pFilesz e).toInt32 }
  else s

/-- A segment whose range is accepted. -/
def loadSegment (file : UInt32) (s : Loader) (e : UInt32) : Loader :=
  ((s.noteBounds e).copySegment file e).fillSegment (s.mem.pVaddr e) e

/-- The loop of `load_elf`; the answer is `false` if a segment is rejected. -/
def loadLoop (file : UInt32) : Nat → Nat → UInt32 → Loader → Bool × Loader
  | 0, _, _, s => (true, s)
  | fuel + 1, i, e, s =>
      if i < (s.mem.ePhnum file).toNat then
        if s.mem.pType e = ptLoad then
          if s.RangeOk e then loadLoop file fuel (i + 1) (e + sizeofPhdr) (s.loadSegment file e)
          else (false, s)
        else loadLoop file fuel (i + 1) (e + sizeofPhdr) s
      else (true, s)

/-- The turns the loop may take: `e_phnum` has 16 bits. -/
def phnumLimit : Nat := 65536

/-- `load_elf`. -/
def loadElf (s : Loader) (file : UInt32) : UInt32 × Loader :=
  if s.mem.IsElf file then
    match loadLoop file phnumLimit 0 (file + s.mem.ePhoff file) s with
    | (true, s) => (s.mem.eEntry file, s)
    | (false, s) => (0, s)
  else (0, s)

end Loader

end KmOS
