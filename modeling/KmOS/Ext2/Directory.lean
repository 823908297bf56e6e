/-
# `KmOS.Ext2.Directory` — loading a directory

`Ext2Mount::load_directory` and `Ext2Directory::scan`.  An entry may lie across
the end of the block that has been read: the buffer of the model has bytes
there as well, those that lie behind it in memory.

**Outcomes.**  A loop that has made all its turns without an end, a division by
zero, and `new` without memory, which leads to a null pointer, are the
outcomes other than `done`.  In all of them what was done until then is kept.

**What is recorded.**  `blocks` are the blocks that the device was asked for,
`looked` are the bytes that were looked at in the blocks, as a position and a
number.

**Outside.**  Where `new` puts a file is given (`New`).  The name that the
constructor of `File` allocates finds memory.
-/
import KmOS.Ext2.Mount
import KmOS.Fs.Children

namespace KmOS

/-! ## Entries -/

def ext2FtRegFile : UInt8 := 1

def ext2FtDir : UInt8 := 2

/-- `struct ext2_dir_entry`. -/
structure Ext2DirEntry where
  inode : Nat
  recLen : Nat
  nameLen : Nat
  fileType : UInt8
  name : Buffer

/-- The entry that starts at `offset`. -/
def dirEntryAt (buffer : Buffer) (offset : Nat) : Ext2DirEntry where
  inode := Memory.load32 buffer offset
  recLen := buffer.load16 (offset + 4)
  nameLen := (buffer (offset + 6)).toNat
  fileType := buffer (offset + 7)
  name := buffer.drop (offset + 8)

namespace Ext2DirEntry

/-- The bytes that are copied, where `name[256]` has room for 255. -/
def copied (entry : Ext2DirEntry) : Nat := if 256 ≤ entry.nameLen then 255 else entry.nameLen

/-- `name`, up to the character that ends it. -/
def chars (entry : Ext2DirEntry) : List UInt8 :=
  ((List.range entry.copied).map entry.name).takeWhile (· ≠ 0)

end Ext2DirEntry

theorem recLen_lt (b : Buffer) (o : Nat) : (dirEntryAt b o).recLen < 2 ^ 16 := by
  have h₀ := (b (o + 4)).toNat_lt
  have h₁ := (b (o + 4 + 1)).toNat_lt
  show (b (o + 4)).toNat + 256 * (b (o + 4 + 1)).toNat < 2 ^ 16
  omega

/-- Every name fits. -/
theorem copied_eq (b : Buffer) (o : Nat) : (dirEntryAt b o).copied = (dirEntryAt b o).nameLen := by
  have hlt : (dirEntryAt b o).nameLen < 256 := (b (o + 6)).toNat_lt
  unfold Ext2DirEntry.copied
  rw [if_neg (Nat.not_le.mpr hlt)]

/-! ## Nodes -/

/-- What `Ext2Node`, `Ext2Directory` and the size of `File` add to a file. -/
structure Ext2Node (σ : Type) where
  mount : Option (Ext2Mount σ)
  inode : Nat
  size : Nat
  loaded : Bool

structure Ext2Tree (σ : Type) extends FileTree where
  node : Nat → Ext2Node σ

/-- Where `new` puts a file that is to be a child of `this`. -/
abbrev New := (t : FileTree) → (this : Nat) → Option { n // t.Fresh this n }

namespace Ext2Tree

variable {σ : Type} (t : Ext2Tree σ)

def setSize (n size : Nat) : Ext2Tree σ :=
  { t with node := Function.update t.node n { t.node n with size := size } }

def setLoaded (n : Nat) : Ext2Tree σ :=
  { t with node := Function.update t.node n { t.node n with loaded := true } }

/-- Whether a directory is loaded is one of four things about it. -/
theorem setLoaded_node (n x : Nat) :
    ((t.setLoaded n).node x).mount = (t.node x).mount ∧
      ((t.setLoaded n).node x).inode = (t.node x).inode ∧
      ((t.setLoaded n).node x).size = (t.node x).size := by
  unfold setLoaded
  dsimp only
  rw [Function.update_apply]
  split
  · next h =>
      rw [h]
      exact ⟨rfl, rfl, rfl⟩
  · exact ⟨rfl, rfl, rfl⟩

/-- A new node, added as a child. -/
def addNode (dir : Nat) (n : { n // t.Fresh dir n }) (name : List UInt8) (type : FileType)
    (node : Ext2Node σ) : Ext2Tree σ where
  toFileTree := t.addChild dir n name type
  node := Function.update t.node n node

end Ext2Tree

/-! ## `load_directory` -/

/-- How a loop ends. -/
inductive Ending
  | done
  | turns
  | trap
  | null
  deriving DecidableEq

/-- A block that the device was asked for, and what it answered. -/
structure BlockRead where
  block : Nat
  pos : Nat
  code : ReturnCode

/-- The local variables of `load_directory`, and what is recorded. -/
structure DirRead (σ : Type) where
  volume : Volume σ
  tree : Ext2Tree σ
  blockBuffer : Buffer
  processed : Nat
  blockIndex : Nat
  offset : Nat
  blocks : List BlockRead
  looked : List (Nat × Nat)

def DirRead.look {σ : Type} (r : DirRead σ) (first count : Nat) : DirRead σ :=
  { r with looked := r.looked ++ [(first, count)] }

/-- What `load_directory` leaves. -/
structure LoadResult (σ : Type) where
  ending : Ending
  ret : Bool
  volume : Volume σ
  tree : Ext2Tree σ
  blocks : List BlockRead

namespace Ext2Mount

variable {σ : Type} (m : Ext2Mount σ) (new : New)

/-- `new Ext2Directory` or `new Ext2RegularFile`, and `dir->addChild`. -/
def newChild (dir : Nat) (name : List UInt8) (type : FileType) (inode size : Nat)
    (r : DirRead σ) : Ending × DirRead σ :=
  match new r.tree.toFileTree dir with
  | none => (.null, r)
  | some n =>
      (.done, { r with
        tree := r.tree.addNode dir n name type ⟨(r.tree.node dir).mount, inode, size, false⟩ })

/-- What the loop over the entries of a block does with an entry. -/
def readEntry (dir : Nat) (r : DirRead σ) : Ending × DirRead σ :=
  let entry := dirEntryAt r.blockBuffer r.offset
  let r := r.look r.offset 4
  if entry.inode = 0 then (.done, r)
  else
    let r := r.look (r.offset + 6) 1
    if entry.nameLen = 0 then (.done, r)
    else
      let r := r.look (r.offset + 8) entry.copied
      let name := entry.chars
      if name = [dot] ∨ name = [dot, dot] then (.done, r)
      else
        match m.readInode r.volume entry.inode with
        | none => (.trap, r)
        | some (none, v) => (.done, { r with volume := v })
        | some (some childInode, v) =>
            let r := { r with volume := v }.look (r.offset + 7) 1
            if entry.fileType = ext2FtDir then
              newChild new dir name .directory entry.inode childInode.iSize r
            else if entry.fileType = ext2FtRegFile ∨ entry.fileType = 0 then
              newChild new dir name .file entry.inode childInode.iSize r
            else (.done, r)

/-- `while (offset < block_size_ && processed < total)`. -/
def entryLoop (total dir : Nat) : Nat → DirRead σ → Ending × DirRead σ
  | 0, r => (.turns, r)
  | fuel + 1, r =>
      if r.offset < m.blockSize ∧ r.processed < total then
        let recLen := (dirEntryAt r.blockBuffer r.offset).recLen
        let r := r.look (r.offset + 4) 2
        if recLen = 0 then (.done, r)
        else
          match m.readEntry new dir r with
          | (.done, r) =>
              entryLoop total dir fuel
                { r with
                  processed := (r.processed + recLen) % 2 ^ 32
                  offset := (r.offset + recLen) % 2 ^ 32 }
          | stopped => stopped
      else (.done, r)

/-- `while (processed < total)`. -/
def blockLoop (inode : Ext2Inode) (dir : Nat) : Nat → DirRead σ → Ending × DirRead σ
  | 0, r => (.turns, r)
  | fuel + 1, r =>
      if r.processed < inode.iSize then
        let (block, v) := m.getBlock inode r.volume r.blockIndex
        let r := { r with volume := v }
        match block with
        | none => (.done, r)
        | some block =>
            let pos := block * m.blockSize % 2 ^ 32
            let (code, blockBuffer, v) := m.deviceRead r.volume pos r.blockBuffer m.blockSize
            let r := { r with
              volume := v, blockBuffer := blockBuffer, blocks := r.blocks ++ [⟨block, pos, code⟩] }
            if code ≠ .ok then (.done, r)
            else
              match m.entryLoop new inode.iSize dir turns { r with offset := 0 } with
              | (.done, r) =>
                  blockLoop inode dir fuel { r with blockIndex := (r.blockIndex + 1) % 2 ^ 32 }
              | stopped => stopped
      else (.done, r)

/-- `Ext2Mount::load_directory`. -/
def loadDirectory (v : Volume σ) (t : Ext2Tree σ) (dir : Nat) : LoadResult σ :=
  if dir = 0 then ⟨.done, false, v, t, []⟩
  else
    match m.readInode v (t.node dir).inode with
    | none => ⟨.trap, false, v, t, []⟩
    | some (none, v) => ⟨.done, false, v, t, []⟩
    | some (some inode, v) =>
        let t := t.setSize dir inode.iSize
        match v.heap.kmalloc m.blockSize with
        | (none, heap) => ⟨.done, false, { v with heap := heap }, t, []⟩
        | (some blockBuffer, heap) =>
            let (ending, r) := m.blockLoop new inode dir turns
              { volume := { v with heap := heap }
                tree := t
                blockBuffer := blockBuffer
                processed := 0
                blockIndex := 0
                offset := 0
                blocks := []
                looked := [] }
            ⟨ending, true, r.volume, r.tree, r.blocks⟩

end Ext2Mount

/-- `Ext2Directory::scan`. -/
def Ext2Tree.scan {σ : Type} (new : New) (v : Volume σ) (t : Ext2Tree σ) (dir : Nat) :
    LoadResult σ :=
  match (t.node dir).mount with
  | none => ⟨.done, false, v, t, []⟩
  | some m =>
      if (t.node dir).loaded then ⟨.done, false, v, t, []⟩
      else
        let res := m.loadDirectory new v t dir
        if res.ending = .done ∧ res.ret = true then { res with tree := res.tree.setLoaded dir }
        else res

end KmOS
