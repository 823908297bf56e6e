/-
# `KmOS.Fs.Model` — the tree of files and `Filesystem::path`

A file is named by its address, 0 is `NULL`.  The children of a file are a list
that `child` starts and `next` continues.

`Filesystem::path` runs over the string with two cursors.  The loops read
through `charAt`, which knows where the string ends, so that a read past the
end is a fault and not a byte; a store before the start of a buffer and the use
of a null pointer are the other faults.

**Outside.**  `scan()` is virtual: `File` and most of its kinds do nothing there,
`Ext2Directory` loads its entries.  It is a parameter here.  Whether `kmalloc`
finds memory is one as well: `heap n` is its answer to the `n`-th request of
the call.  Pointer differences are numbers; a name of 2 GB, where `int` ends,
is more than the heap can hold.

**What is left out.**  `kfree(name)`: the buffers of `.` and `..` leak, the
others are given back, and neither is read again.
-/
import KmOS.Lib.Tokens
import KmOS.Lib.Freelist
import KmOS.Slob.Model

namespace KmOS

/-! ## Files -/

/-- `TYPE_FILE` to `TYPE_LINK`. -/
inductive FileType
  | file
  | directory
  | device
  | process
  | link
  deriving DecidableEq

/-- `class File`. -/
structure File where
  name : List UInt8
  type : FileType
  parent : Nat := 0
  child : Nat := 0
  next : Nat := 0
  prec : Nat := 0
  link : Nat := 0

/-- The files, and the children of each: the list that its pointers are. -/
structure FileTree where
  file : Nat → File
  kids : Nat → List Nat
  linked : ∀ d, Sll 0 (fun f => (file f).next) (file d).child (kids d)
  short : ∀ d, (kids d).length < turns

namespace FileTree

/-- The loop of `find`. -/
def findLoop (t : FileTree) (n : List UInt8) : Nat → Nat → Nat
  | 0, _ => 0
  | fuel + 1, fp =>
      if fp = 0 then 0
      else if (t.file fp).name = n then fp
      else findLoop t n fuel (t.file fp).next

/-- `File::find`. -/
def find (t : FileTree) (this : Nat) (n : List UInt8) : Nat :=
  t.findLoop n turns (t.file this).child

/-- The file itself, or what it links to. -/
def follow (t : FileTree) (found : Nat) : Nat :=
  if (t.file found).type = .link ∧ (t.file found).link ≠ 0 then (t.file found).link else found

end FileTree

/-! ## Strings -/

/-- The bytes of a string, without the one that ends it. -/
structure CString where
  chars : List UInt8
  noNul : 0 ∉ chars

def slash : UInt8 := 0x2F
def dot : UInt8 := 0x2E

inductive Fault
  | outOfRange
  | nullDereference
  deriving DecidableEq

/-- `*(p + i)`. -/
def charAt (p : List UInt8) (i : Nat) : Except Fault UInt8 :=
  if i < p.length then .ok (p.getD i 0) else if i = p.length then .ok 0 else .error .outOfRange

/-- `while (*beg_p == '/') beg_p++;` -/
def skipSlashes (p : List UInt8) : Nat → Nat → Except Fault Nat
  | 0, _ => .error .outOfRange
  | fuel + 1, begP => do
      let c ← charAt p begP
      if c = slash then skipSlashes p fuel (begP + 1) else .ok begP

/-- `while (*end_p != '\0' && *end_p != '/') end_p++;` -/
def endOfName (p : List UInt8) : Nat → Nat → Except Fault Nat
  | 0, _ => .error .outOfRange
  | fuel + 1, endP => do
      let c ← charAt p endP
      if c ≠ 0 ∧ c ≠ slash then endOfName p fuel (endP + 1) else .ok endP

/-! ## `Filesystem` -/

/-- The virtual function `scan()`. -/
abbrev Scan := FileTree → Nat → FileTree

/-- `class Filesystem`, and the current directory of the process that runs, if
one does. -/
structure Filesystem where
  tree : FileTree
  root : Nat
  currentDir : Option Nat

namespace Filesystem

/-- The part of the loop of `path` that acts on a name: `some fp`, or `none` if
there is no such file. -/
def enter (scan : Scan) (t : FileTree) (fp : Nat) (name : List UInt8) : Option Nat × FileTree :=
  if name = [dot, dot] then (some (t.file fp).parent, t)
  else if name = [dot] then (some fp, t)
  else
    let t := scan t fp
    let found := t.find fp name
    if found = 0 then (none, t) else (some (t.follow found), t)

/-- The loop of `path`.  Each turn takes a character of the string at least, so
that `path` gives it enough of them. -/
def pathLoop (scan : Scan) (p : List UInt8) :
    Nat → (Nat → Bool) → FileTree → Nat → Nat → Nat → Except Fault (Nat × FileTree)
  | 0, _, _, _, _, _ => .error .outOfRange
  | fuel + 1, heap, t, fp, begP, endP => do
      let c ← charAt p begP
      if c = 0 then .ok (fp, t)
      else if fp = 0 then .error .nullDereference
      else if (t.file fp).type ≠ .directory then .ok (0, t)
      else
        let endP ← endOfName p (p.length + 1) endP
        if heap 0 = false then .error .nullDereference
        else if endP < begP then .error .outOfRange
        else
          match enter scan t fp ((p.drop begP).take (endP - begP)) with
          | (none, t) => .ok (0, t)
          | (some fp, t) => do
              let begP ← skipSlashes p (p.length + 1) endP
              pathLoop scan p fuel (fun n => heap (n + 1)) t fp begP (endP + 1)

/-- `Filesystem::path`. -/
def path (fsm : Filesystem) (scan : Scan) (heap : Nat → Bool) (p : Option CString) :
    Except Fault (Nat × FileTree) :=
  match p with
  | none => .ok (0, fsm.tree)
  | some p => do
      let c ← charAt p.chars 0
      let fp := if c ≠ slash then fsm.currentDir.getD fsm.root else fsm.root
      let begP ← skipSlashes p.chars (p.chars.length + 1) 0
      pathLoop scan p.chars (p.chars.length + 1) heap fsm.tree fp begP 1

end Filesystem

/-! ## Paths -/

section
variable (scan : Scan)

/-- **Where a list of names leads** from the file `n`, 0 for nowhere. -/
def FileTree.resolve : FileTree → Nat → List (List UInt8) → Nat × FileTree
  | t, n, [] => (n, t)
  | t, n, c :: l =>
      if n = 0 ∨ (t.file n).type ≠ .directory then (0, t)
      else if c = [dot] then t.resolve n l
      else if c = [dot, dot] then
        t.resolve (if (t.file n).parent = 0 then n else (t.file n).parent) l
      else
        let t := scan t n
        match (t.kids n).find? fun f => (t.file f).name = c with
        | none => (0, t)
        | some f => t.resolve (t.follow f) l

/-- The names of a path. -/
def names (p : List UInt8) : List (List UInt8) := (p.splitOnP (· = slash)).filter (· ≠ [])

/-- Where a path starts: at the root if it begins with a slash, or if no process
runs that could have a directory. -/
def Filesystem.start (fsm : Filesystem) (p : List UInt8) : Nat :=
  if p.head? = some slash then fsm.root else fsm.currentDir.getD fsm.root

/-- **What a path names.** -/
def Filesystem.resolve (fsm : Filesystem) (p : List UInt8) : Nat × FileTree :=
  fsm.tree.resolve scan (fsm.start p) (names p)

end

end KmOS
