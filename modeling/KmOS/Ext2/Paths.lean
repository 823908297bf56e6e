/-
# `KmOS.Ext2.Paths` — paths on a volume

`Filesystem::path` where the root of the file system is that of a volume.  The tree in
memory is empty at first, and grows as paths are looked up: each directory is loaded when
the first path goes through it.

On the other side are the directories of the disk, in which a list of names leads to a
file or to none (`Directories.fileAt`).  Whatever part of them has been loaded
(`Unfolds`), a path leads to the node of the file that it leads to on the disk
(`path_agrees`), and the nodes that have been found before stay where they are.

**What is left out.**  The calls that change the tree in other ways (`mknod`, `link`,
`remove`): their files would not be on the disk.  The names in `path` have their memory
from `heap`, and not from the heap of the volume.  The test of `path` for a null pointer.
-/
import Mathlib.Data.List.Find
import KmOS.Lib.Places
import KmOS.Ext2.Growth
import KmOS.Ext2.Lookup
import KmOS.Ext2.RegularFile

namespace KmOS

/-! ## The code -/

/-- The file system that grows: its files, and what `scan` reads them with. -/
structure Live (σ : Type) where
  tree : Ext2Tree σ
  volume : Volume σ

namespace Live

variable {σ : Type} (new : New) (w : Live σ)

/-- `dir->scan()`, and how it ends. -/
def scan (dir : Nat) : Ending × Live σ :=
  let res := w.tree.scan new w.volume dir
  (res.ending, ⟨res.tree, res.volume⟩)

/-- How a lookup ends, the file that it finds, and what is left. -/
structure Found (σ : Type) where
  ending : Ending
  file : Nat
  live : Live σ

/-- What the loop of `path` does with the names: the state is what `kmalloc` will answer,
the file system, and `fp`. -/
def pathScanner : Scanner ((Nat → Bool) × Live σ × Nat) (Found σ) where
  finish := fun (_, w, fp) => ⟨.done, fp, w⟩
  stop := fun (_, w, fp) =>
    if fp = 0 then some (.error .nullDereference)
    else if (w.tree.file fp).type ≠ .directory then some (.ok ⟨.done, 0, w⟩)
    else none
  granted := fun (heap, _, _) => heap 0
  act := fun (heap, w, fp) name =>
    let heap := fun n => heap (n + 1)
    if name = [dot, dot] then .inr (heap, w, (w.tree.file fp).parent)
    else if name = [dot] then .inr (heap, w, fp)
    else
      let (ending, w) := w.scan new fp
      if ending ≠ .done then .inl ⟨ending, 0, w⟩
      else
        let found := w.tree.find fp name
        if found = 0 then .inl ⟨.done, 0, w⟩ else .inr (heap, w, w.tree.follow found)

/-- `Filesystem::path`. -/
def path (root : Nat) (currentDir : Option Nat) (heap : Nat → Bool) (p : CString) :
    Except Fault (Found σ) := do
  let c ← charAt p.chars 0
  let fp := if c ≠ slash then currentDir.getD root else root
  let begP ← skipSlashes p.chars (p.chars.length + 1) 0
  (pathScanner new).loop p.chars (p.chars.length + 1) (heap, w, fp) begP 1

end Live

/-! ## The directories of the disk -/

/-- `EXT2_ROOT_INO`. -/
def ext2RootIno : Nat := 2

structure DiskFile where
  inode : Nat
  directory : Bool

/-- The entries of each directory that become nodes. -/
abbrev Directories := Nat → List Entry

/-- Where a file is: the names that lead to it, the last one first. -/
abbrev Place := List (List UInt8)

/-- The directory of a file.  That of the root is none. -/
def parentPlace : Place → Option Place
  | [] => none
  | _ :: place => some place

def Entry.file (e : Entry) : DiskFile := ⟨e.inode, e.fileType = ext2FtDir⟩

namespace Directories

variable (dirs : Directories)

/-- The file with a name.  A later entry hides the ones before it. -/
def child (f : DiskFile) (c : List UInt8) : Option DiskFile :=
  if f.directory then
    ((dirs f.inode).reverse.find? fun e => checkName e.chars = c).map Entry.file
  else none

/-- The file at a place. -/
def fileAt (place : Place) : Option DiskFile := placed dirs.child ⟨ext2RootIno, true⟩ place

def IsDirectory (place : Place) : Prop := (dirs.fileAt place).any DiskFile.directory = true

instance (place : Place) : Decidable (dirs.IsDirectory place) := inferInstanceAs (Decidable (_ = _))

/-- What a path is to do with the names: the state is what `kmalloc` will answer, and the
place, if there is one. -/
def pathScanner : Scanner ((Nat → Bool) × Option Place) (Option Place) where
  finish := fun (_, o) => o
  stop := fun (_, o) =>
    match o with
    | none => some (.error .nullDereference)
    | some place => if dirs.IsDirectory place then none else some (.ok none)
  granted := fun (heap, _) => heap 0
  act := fun (heap, o) name =>
    let heap := fun n => heap (n + 1)
    match o with
    | none => .inl none
    | some place =>
        if name = [dot, dot] then .inr (heap, parentPlace place)
        else if name = [dot] then .inr (heap, some place)
        else if (dirs.fileAt (name :: place)).isSome then .inr (heap, some (name :: place))
        else .inl none

/-- **Where a path leads.** -/
def path (currentDir : Option (Option Place)) (heap : Nat → Bool) (p : CString) :
    Except Fault (Option Place) :=
  dirs.pathScanner.walk
    (heap, if p.chars.head? = some slash then some [] else currentDir.getD (some []))
    (tokens slash 0 p.chars)

end Directories

/-! ## What has been loaded -/

/-- The child with a name. -/
def FileTree.childOf (t : FileTree) (d : Nat) (c : List UInt8) : Option Nat :=
  (t.kids d).find? fun f => (t.file f).name = c

namespace Ext2Mount

variable {σ : Type} (m : Ext2Mount σ) (disk : Buffer) (dirs : Directories) (root : Nat)

/-- The node `n` is that of the file `f`. -/
structure AtDisk (t : Ext2Tree σ) (n : Nat) (f : DiskFile) : Prop where
  mount : (t.node n).mount = some m
  inode : (t.node n).inode = f.inode
  type : (t.file n).type = if f.directory then .directory else .file
  size : f.directory = false → (t.node n).size = (m.diskInode disk f.inode).iSize

/-- **A part of the directories** is in memory: a directory has no children, or all of
them. -/
structure Unfolds (t : Ext2Tree σ) : Prop where
  notNull : root ≠ 0
  top : m.AtDisk disk t root ⟨ext2RootIno, true⟩
  parentless : (t.file root).parent = 0
  parents : ∀ d k, t.Inside root d → k ∈ t.kids d → (t.file k).parent = d
  bounded : t.Bounded
  empty : ∀ d, t.Inside root d → (t.node d).loaded = false → t.kids d = []
  full : ∀ d, t.Inside root d → (t.node d).loaded = true → (t.file d).type = .directory ∧
    ∃ ns, t.kids d = ns.reverse ∧ List.Forall₂ (m.Stands disk t) ns (dirs (t.node d).inode)

/-- The directories that paths lead to are on the device, and so are the files in them. -/
structure DirectoriesOn (cap : Nat) : Prop where
  directory : ∀ place f, dirs.fileAt place = some f → f.directory = true →
    m.InodeOn cap f.inode ∧ ∃ blocks, m.DirectoryOn disk cap (m.diskInode disk f.inode) blocks ∧
      dirs f.inode = m.expected blocks.flatten
  file : ∀ place f, dirs.fileAt place = some f → f.directory = false → m.FileOn disk cap f.inode

variable {m disk dirs root} {cap : Nat} {good : List Bool → Volume σ → Prop} {new : New}
  {t t' : Ext2Tree σ} {n k d : Nat} {c : List UInt8} {e : Entry} {f : DiskFile} {place : Place}

theorem Stands.atDisk (h : m.Stands disk t n e) : m.AtDisk disk t n e.file where
  mount := h.mount
  inode := h.inode
  type := by
    rw [h.type]
    by_cases hd : e.fileType = ext2FtDir <;> simp [Entry.file, hd]
  size _ := h.size

namespace Unfolds

/-- The children of a directory that has been loaded. -/
theorem child_rel (h : m.Unfolds disk dirs root t) (hd : t.Inside root d)
    (hl : (t.node d).loaded = true) (hf : m.AtDisk disk t d f) (c : List UInt8) :
    Option.Rel (m.AtDisk disk t) (t.childOf d c) (dirs.child f c) := by
  obtain ⟨htype, ns, hkids, hns⟩ := h.full d hd hl
  have hdir : f.directory = true := by
    by_contra hno
    rw [hf.type, if_neg hno] at htype
    exact nomatch htype
  rw [hf.inode] at hns
  have hfind := find?_rel (p := fun x => decide ((t.file x).name = c))
    (q := fun e => decide (checkName e.chars = c)) (List.rel_reverse hns)
    fun x e hs => by rw [hs.name]
  unfold FileTree.childOf Directories.child
  rw [hkids, if_pos hdir]
  generalize ns.reverse.find? _ = x at hfind ⊢
  generalize (dirs f.inode).reverse.find? _ = y at hfind ⊢
  cases hfind with
  | none => exact .none
  | some hs => exact .some hs.atDisk

/-- A directory with children has been loaded. -/
theorem loaded_of_child (h : m.Unfolds disk dirs root t) (hd : t.Inside root d)
    (hk : t.childOf d c = some k) : k ∈ t.kids d ∧ (t.node d).loaded = true := by
  have hmem : k ∈ t.kids d := List.mem_of_find?_eq_some hk
  refine ⟨hmem, ?_⟩
  by_contra hl
  rw [h.empty d hd (Bool.eq_false_of_not_eq_true hl)] at hmem
  exact nomatch hmem

/-- **What is found in memory** is on the disk, at the same place. -/
theorem atDisk (h : m.Unfolds disk dirs root t) (hn : placed t.childOf root place = some n) :
    t.Inside root n ∧ ∃ f, dirs.fileAt place = some f ∧ m.AtDisk disk t n f := by
  have hrel : ∃ f, placed dirs.child ⟨ext2RootIno, true⟩ place = some f ∧
      t.Inside root n ∧ m.AtDisk disk t n f :=
    placed_rel (R := fun n f => t.Inside root n ∧ m.AtDisk disk t n f) ⟨.root, h.top⟩
      (fun d f c k hR hk => by
        obtain ⟨hd, hf⟩ := hR
        obtain ⟨hmem, hl⟩ := h.loaded_of_child hd hk
        have hrel := h.child_rel hd hl hf c
        rw [hk] at hrel
        generalize dirs.child f c = y at hrel ⊢
        cases hrel with
        | some hkf => exact ⟨_, rfl, .kid hd hmem, hkf⟩) hn
  obtain ⟨f, hf, hin, hat⟩ := hrel
  exact ⟨hin, f, hf, hat⟩

end Unfolds

/-! ## Loading one more directory -/

/-- Nothing about the file `x` has changed, but perhaps its size, to that on the disk. -/
structure Stays (m : Ext2Mount σ) (disk : Buffer) (t t' : Ext2Tree σ) (x : Nat) : Prop where
  name : (t'.file x).name = (t.file x).name
  type : (t'.file x).type = (t.file x).type
  parent : (t'.file x).parent = (t.file x).parent
  mount : (t'.node x).mount = (t.node x).mount
  inode : (t'.node x).inode = (t.node x).inode
  size : (t'.node x).size = (t.node x).size ∨
    (t'.node x).size = (m.diskInode disk (t.node x).inode).iSize

theorem Stands.stays (h : m.Stands disk t n e) (hs : m.Stays disk t t' n) :
    m.Stands disk t' n e where
  name := hs.name.trans h.name
  type := hs.type.trans h.type
  mount := hs.mount.trans h.mount
  inode := hs.inode.trans h.inode
  size := by
    rcases hs.size with hsize | hsize
    · exact hsize.trans h.size
    · rw [hsize, h.inode]

theorem AtDisk.stays (h : m.AtDisk disk t n f) (hs : m.Stays disk t t' n) :
    m.AtDisk disk t' n f where
  mount := hs.mount.trans h.mount
  inode := hs.inode.trans h.inode
  type := hs.type.trans h.type
  size hf := by
    rcases hs.size with hsize | hsize
    · exact hsize.trans (h.size hf)
    · rw [hsize, h.inode]

/-- What loading the directory `d` leaves: it has the nodes of the entries `es`, and the
others are as they were. -/
structure Gains (m : Ext2Mount σ) (disk : Buffer) (root d : Nat) (t t' : Ext2Tree σ)
    (es : List Entry) : Prop where
  stays : ∀ x, t.Inside root x → m.Stays disk t t' x ∧ t'.Inside root x
  others : ∀ x, t.Inside root x → x ≠ d →
    t'.kids x = t.kids x ∧ (t'.node x).loaded = (t.node x).loaded
  loaded : (t'.node d).loaded = true
  kids : ∃ ns, t'.kids d = ns.reverse ∧ List.Forall₂ (m.Stands disk t') ns es
  fresh : ∀ k ∈ t'.kids d, t'.kids k = [] ∧ (t'.file k).parent = d ∧ (t'.node k).loaded = false
  bounded : t.Bounded → t'.Bounded

variable {es : List Entry}

/-- The files that there are then. -/
theorem Gains.inside (h : m.Gains disk root d t t' es) {x : Nat} (hx : t'.Inside root x) :
    t.Inside root x ∨ x ∈ t'.kids d := by
  induction hx with
  | root => exact Or.inl .root
  | @kid e k _ hk ih =>
      rcases ih with he | he
      · by_cases hed : e = d
        · exact Or.inr (hed ▸ hk)
        · rw [(h.others e he hed).1] at hk
          exact Or.inl (.kid he hk)
      · rw [(h.fresh e he).1] at hk
        exact nomatch hk

/-- **Loading** keeps the invariant. -/
theorem Gains.unfolds (h : m.Gains disk root d t t' es) (hu : m.Unfolds disk dirs root t)
    (hd : t.Inside root d) (htype : (t.file d).type = .directory)
    (hes : es = dirs (t.node d).inode) : m.Unfolds disk dirs root t' where
  notNull := hu.notNull
  top := hu.top.stays (h.stays root .root).1
  parentless := (h.stays root .root).1.parent.trans hu.parentless
  parents x k hx hk := by
    rcases h.inside hx with hx | hx
    · by_cases hxd : x = d
      · subst hxd
        exact (h.fresh k hk).2.1
      · rw [(h.others x hx hxd).1] at hk
        exact (h.stays k (.kid hx hk)).1.parent.trans (hu.parents x k hx hk)
    · rw [(h.fresh x hx).1] at hk
      exact nomatch hk
  bounded := h.bounded hu.bounded
  empty x hx hl := by
    rcases h.inside hx with hx | hx
    · have hxd : x ≠ d := by
        rintro rfl
        rw [h.loaded] at hl
        exact Bool.noConfusion hl
      obtain ⟨hkids, hloaded⟩ := h.others x hx hxd
      rw [hkids]
      exact hu.empty x hx (hloaded ▸ hl)
    · exact (h.fresh x hx).1
  full x hx hl := by
    rcases h.inside hx with hx | hx
    · have hs := (h.stays x hx).1
      by_cases hxd : x = d
      · subst hxd
        refine ⟨hs.type.trans htype, ?_⟩
        rw [hs.inode, ← hes]
        exact h.kids
      · obtain ⟨hkids, hloaded⟩ := h.others x hx hxd
        obtain ⟨hdir, ns, hns, hstands⟩ := hu.full x hx (hloaded ▸ hl)
        refine ⟨hs.type.trans hdir, ns, hkids.trans hns, ?_⟩
        rw [hs.inode]
        -- the children were inside before
        have hin : ∀ k ∈ ns, t.Inside root k := fun k hk =>
          .kid hx (hns ▸ List.mem_reverse.mpr hk)
        have hboth := (List.forall₂_and_left ns _).mpr ⟨hin, hstands⟩
        exact hboth.imp fun k e hk => hk.2.stays (h.stays k hk.1).1
    · rw [(h.fresh x hx).2.2] at hl
      exact Bool.noConfusion hl

/-- **Loading** leaves the files where they are. -/
theorem Gains.placed (h : m.Gains disk root d t t' es) (hempty : t.kids d = [])
    (hn : placed t.childOf root place = some n) : placed t'.childOf root place = some n := by
  refine placed_mono (P := t.Inside root) .root (fun x c k hx hk => ?_) hn
  have hmem : k ∈ t.kids x := List.mem_of_find?_eq_some hk
  refine ⟨.kid hx hmem, ?_⟩
  have hxd : x ≠ d := by
    rintro rfl
    rw [hempty] at hmem
    exact nomatch hmem
  unfold FileTree.childOf at hk ⊢
  rw [(h.others x hx hxd).1, ← hk]
  refine List.find?_congr fun y hy => ?_
  rw [(h.stays y (.kid hx hy)).1.name]

/-- What has grown, and is marked as loaded then, keeps the files it had. -/
theorem Frame.stays {size : Nat} {ns : List Nat} (h : Frame root d (t.setSize d size) t' ns)
    (hsize : size = (m.diskInode disk (t.node d).inode).iSize) {x : Nat} (hx : x ∉ ns) :
    m.Stays disk t (t'.setLoaded d) x := by
  obtain ⟨hs, hparent⟩ := h.same x hx
  obtain ⟨hmount, hinode, hsize₁⟩ := t'.setLoaded_node d x
  obtain ⟨hmount₀, hinode₀, -, hsize₀⟩ := t.setSize_node d size x
  rw [hs.node] at hmount hinode hsize₁
  refine ⟨hs.name, hs.type, hparent, hmount.trans hmount₀, hinode.trans hinode₀, ?_⟩
  rcases hsize₀ with hsize₀ | ⟨rfl, hsize₀⟩
  · exact Or.inl (hsize₁.trans hsize₀)
  · exact Or.inr (hsize₁.trans (hsize₀.trans hsize))

/-- A directory that was empty gains what it has then. -/
theorem Frame.gains {size : Nat} {ns : List Nat} (h : Frame root d (t.setSize d size) t' ns)
    (hsize : size = (m.diskInode disk (t.node d).inode).iSize) (hd : t.Inside root d)
    (hempty : t.kids d = []) (hbounded : t.Bounded → t'.Bounded)
    (hkids : ∃ ns, (t'.setLoaded d).kids d = ns.reverse ∧
      List.Forall₂ (m.Stands disk (t'.setLoaded d)) ns es) :
    m.Gains disk root d t (t'.setLoaded d) es := by
  have hinside : ∀ x, t.Inside root x → x ∉ ns ∧ t'.Inside root x := fun x hx => h.inside hx
  have hother : ∀ x, x ≠ d → (t'.setLoaded d).node x = t'.node x := fun x hx =>
    Function.update_of_ne hx _ _
  refine ⟨fun x hx => ⟨h.stays hsize (hinside x hx).1, (hinside x hx).2⟩,
    fun x hx hxd => ⟨h.others x (hinside x hx).1 hxd, ?_⟩, loaded_setLoaded _ _, hkids,
    fun k hk => ?_, hbounded⟩
  · rw [hother x hxd, (h.same x (hinside x hx).1).1.node]
    exact (t.setSize_node d size x).2.2.1
  · have hnew : t'.kids d = ns := by
      rw [h.kids]
      show ns ++ t.kids d = ns
      rw [hempty, List.append_nil]
    have hk' : k ∈ ns := hnew ▸ hk
    obtain ⟨hnil, hparent, hloaded⟩ := h.fresh k hk'
    have hkd : k ≠ d := by
      rintro rfl
      exact (hinside k hd).1 hk'
    exact ⟨hnil, hparent, (congrArg Ext2Node.loaded (hother k hkd)).trans hloaded⟩

/-- **`scan` of a directory that has not been loaded.** -/
theorem scan_gains (hw : m.Works disk cap good) (hample : Ample new root)
    (hu : m.Unfolds disk dirs root t) (hd : t.Inside root d) (hl : (t.node d).loaded = false)
    (hm : (t.node d).mount = some m) (h0 : d ≠ 0) (hi : m.InodeOn cap (t.node d).inode)
    {blocks : List (List Entry)}
    (hblocks : m.DirectoryOn disk cap (m.diskInode disk (t.node d).inode) blocks) {v : Volume σ}
    (hv : good [] v) :
    (t.scan new v d).ending = .done ∧ good [] (t.scan new v d).volume ∧
      m.Gains disk root d t (t.scan new v d).tree (m.expected blocks.flatten) := by
  have hempty := hu.empty d hd hl
  have hmem : Memory new d blocks.flatten.length t.toFileTree := by
    have hlen := hblocks.length_lt (Memory.load32_lt _ _)
    refine memory_of_ample hample hu.bounded ?_
    rw [hempty]
    unfold turns wordSize
    rw [List.length_nil]
    omega
  obtain ⟨hend, hload⟩ := hw.loadDirectory h0 hi hblocks hm hmem hv
  rw [if_pos List.headD_nil] at hload
  have hhealthy := hw.loadDirectory_healthy h0 hi hblocks hm hmem hv
  obtain ⟨-, hcomplete⟩ := scan_healthy hw h0 hm hl hi hblocks hmem hv
  obtain ⟨res, v₁, hread, -, hres⟩ := hw.answers.readInode hw.cap hw.inodeSize hi hv
  rw [if_pos List.headD_nil] at hres
  obtain ⟨inode, rfl, hsame⟩ := hres
  have hgrown := loadDirectory_grown new h0 hread
  obtain ⟨ns, hframe⟩ := hgrown.frame hample
  rw [scan_eq hm hl, hload.scanned hend] at hcomplete ⊢
  refine ⟨hend, hhealthy, hframe.gains hsame.iSize hd hempty hgrown.bounded ?_⟩
  obtain ⟨ns', -, hkids', hns'⟩ := hcomplete
  rw [hempty, List.append_nil] at hkids'
  exact ⟨ns', hkids', hns'⟩

/-! ## One path -/

theorem inside_ne_zero (h : m.Unfolds disk dirs root t) (hd : t.Inside root d) : d ≠ 0 := by
  cases hd with
  | root => exact h.notNull
  | kid _ hk => exact FileTree.kids_ne_zero hk

/-- A directory is not a link. -/
theorem AtDisk.follow (h : m.AtDisk disk t n f) : t.follow n = n := by
  refine if_neg fun hl => ?_
  have htype := h.type
  rw [hl.1] at htype
  cases hf : f.directory <;> simp [hf] at htype

/-- A file system that has part of a disk in memory, and can load the rest. -/
structure Mirror (m : Ext2Mount σ) (disk : Buffer) (good : List Bool → Volume σ → Prop)
    (dirs : Directories) (root : Nat) (w : Live σ) : Prop where
  unfolds : m.Unfolds disk dirs root w.tree
  good : good [] w.volume

/-- The file at a place, or none. -/
def Names (root : Nat) (t : Ext2Tree σ) (n : Nat) : Option Place → Prop
  | none => n = 0
  | some place => placed t.childOf root place = some n

/-- All files that have been found are where they were. -/
def Later (root : Nat) (t t' : Ext2Tree σ) : Prop :=
  ∀ place n, placed t.childOf root place = some n → placed t'.childOf root place = some n

theorem Later.names (h : Later root t t') {o : Option Place} (hn : Names root t n o) :
    Names root t' n o := by
  cases o with
  | none => exact hn
  | some place => exact h place n hn

variable {w : Live σ}

/-- **`scan` of a directory** loads it, if it has not been loaded. -/
theorem Mirror.scan (hw : m.Works disk cap good) (hdirs : m.DirectoriesOn disk dirs cap)
    (hample : Ample new root) (h : m.Mirror disk good dirs root w)
    (hd : placed w.tree.childOf root place = some d) (hf : dirs.fileAt place = some f)
    (hdir : f.directory = true) :
    (w.scan new d).1 = .done ∧ m.Mirror disk good dirs root (w.scan new d).2 ∧
      Later root w.tree (w.scan new d).2.tree ∧ ((w.scan new d).2.tree.node d).loaded = true := by
  obtain ⟨hin, f', hf', hat⟩ := h.unfolds.atDisk hd
  obtain rfl := Option.some.inj (hf.symm.trans hf')
  unfold Live.scan
  dsimp only
  cases hl : (w.tree.node d).loaded with
  | true =>
      have hscan : w.tree.scan new w.volume d = ⟨.done, false, w.volume, w.tree, []⟩ := by
        unfold Ext2Tree.scan
        rw [hat.mount]
        exact if_pos hl
      rw [hscan]
      exact ⟨rfl, h, fun _ _ hp => hp, hl⟩
  | false =>
      obtain ⟨hi, blocks, hblocks, hes⟩ := hdirs.directory place f hf hdir
      rw [← hat.inode] at hi hblocks hes
      obtain ⟨hend, hgood, hgains⟩ := scan_gains hw hample h.unfolds hin hl hat.mount
        (inside_ne_zero h.unfolds hin) hi hblocks h.good
      have htype : (w.tree.file d).type = .directory := by rw [hat.type, if_pos hdir]
      exact ⟨hend, ⟨hgains.unfolds h.unfolds hin htype hes.symm, hgood⟩,
        fun _ _ hp => hgains.placed (h.unfolds.empty d hin hl) hp, hgains.loaded⟩

/-- What a lookup is to give: the file at the place that the disk says. -/
structure Finds (m : Ext2Mount σ) (disk : Buffer) (good : List Bool → Volume σ → Prop)
    (dirs : Directories) (root : Nat) (t : Ext2Tree σ) (r : Live.Found σ) (o : Option Place) :
    Prop where
  ending : r.ending = .done
  mirror : m.Mirror disk good dirs root r.live
  names : Names root r.live.tree r.file o
  later : Later root t r.live.tree

/-- The parent of a file, where it has one. -/
theorem Unfolds.parent (h : m.Unfolds disk dirs root t)
    (hn : placed t.childOf root place = some n) :
    Names root t (t.file n).parent (parentPlace place) := by
  cases place with
  | nil =>
      cases hn
      exact h.parentless
  | cons c place =>
      obtain ⟨d, hd, hk⟩ := placed_cons_some hn
      obtain ⟨hin, -⟩ := h.atDisk hd
      show placed t.childOf root place = some (t.file n).parent
      rw [h.parents d n hin (List.mem_of_find?_eq_some hk)]
      exact hd

/-- A name in a directory that has been loaded: there is no such file, in memory and on the
disk, or there is one. -/
theorem Unfolds.find (h : m.Unfolds disk dirs root t) (hn : placed t.childOf root place = some n)
    (hl : (t.node n).loaded = true) (c : List UInt8) :
    (t.find n c = 0 ∧ dirs.fileAt (c :: place) = none) ∨
      t.find n c ≠ 0 ∧ t.follow (t.find n c) = t.find n c ∧
        placed t.childOf root (c :: place) = some (t.find n c) ∧
        (dirs.fileAt (c :: place)).isSome = true := by
  obtain ⟨hin, f, hf, hat⟩ := h.atDisk hn
  have hrel := h.child_rel hin hl hat c
  have hplace : dirs.fileAt (c :: place) = dirs.child f c := placed_cons hf
  have hfind : t.find n c = (t.childOf n c).getD 0 := FileTree.find_eq n c
  rw [hplace, placed_cons hn, hfind]
  generalize dirs.child f c = y at hrel ⊢
  cases hk : t.childOf n c with
  | none =>
      rw [hk] at hrel
      cases hrel
      exact Or.inl ⟨rfl, rfl⟩
  | some k =>
      rw [hk] at hrel
      cases hrel with
      | some hkf =>
          have hmem := (h.loaded_of_child hin hk).1
          exact Or.inr ⟨FileTree.kids_ne_zero hmem, hkf.follow, rfl, rfl⟩

/-- The states of the two loops: the lookup has come to the same place. -/
structure Tracks (m : Ext2Mount σ) (disk : Buffer) (good : List Bool → Volume σ → Prop)
    (dirs : Directories) (root : Nat) (t : Ext2Tree σ) (s : (Nat → Bool) × Live σ × Nat)
    (s' : (Nat → Bool) × Option Place) : Prop where
  heap : s.1 = s'.1
  mirror : m.Mirror disk good dirs root s.2.1
  names : Names root s.2.1.tree s.2.2 s'.2
  later : Later root t s.2.1.tree

/-- A file is a directory in memory if it is one on the disk. -/
theorem AtDisk.type_iff (h : m.AtDisk disk t n f) :
    (t.file n).type = .directory ↔ f.directory = true := by
  rw [h.type]
  cases f.directory <;> simp

/-- **At a name**, the code stops where there is none on the disk. -/
theorem Tracks.stop {heap heap' : Nat → Bool} {o : Option Place} {fp : Nat}
    (h : m.Tracks disk good dirs root t (heap, w, fp) (heap', o)) :
    Option.Rel (Scanner.Agree (m.Finds disk good dirs root t))
      ((Live.pathScanner new).stop (heap, w, fp)) (dirs.pathScanner.stop (heap', o)) := by
  obtain ⟨-, hmirror, hnames, hlater⟩ := h
  dsimp only at hmirror hnames hlater
  unfold Live.pathScanner Directories.pathScanner
  cases o with
  | none =>
      obtain rfl : fp = 0 := hnames
      exact .some (.error _)
  | some place =>
      obtain ⟨hin, f, hf, hat⟩ := hmirror.unfolds.atDisk hnames
      have hdir : dirs.IsDirectory place ↔ f.directory = true := by
        unfold Directories.IsDirectory
        rw [hf]
        exact Iff.rfl
      dsimp only
      rw [if_neg (inside_ne_zero hmirror.unfolds hin)]
      by_cases hd : f.directory = true
      · rw [if_pos (hdir.mpr hd), if_neg (not_not.mpr (hat.type_iff.mpr hd))]
        exact .none
      · rw [if_neg (fun he => hd (hdir.mp he)), if_pos (fun he => hd (hat.type_iff.mp he))]
        exact .some (.ok ⟨rfl, hmirror, rfl, hlater⟩)

/-- **One name.** -/
theorem Tracks.act (hw : m.Works disk cap good) (hdirs : m.DirectoriesOn disk dirs cap)
    (hample : Ample new root) {heap heap' : Nat → Bool} {o : Option Place} {fp : Nat}
    (h : m.Tracks disk good dirs root t (heap, w, fp) (heap', o)) (c : List UInt8)
    (hstop : (Live.pathScanner new).stop (heap, w, fp) = none) :
    Sum.LiftRel (m.Finds disk good dirs root t) (m.Tracks disk good dirs root t)
      ((Live.pathScanner new).act (heap, w, fp) c) (dirs.pathScanner.act (heap', o) c) := by
  obtain ⟨rfl, hmirror, hnames, hlater⟩ := h
  unfold Live.pathScanner at hstop
  dsimp only at hmirror hnames hlater hstop
  unfold Live.pathScanner Directories.pathScanner
  dsimp only
  cases o with
  | none =>
      obtain rfl : fp = 0 := hnames
      exact nomatch hstop
  | some place =>
      obtain ⟨hin, f, hf, hat⟩ := hmirror.unfolds.atDisk hnames
      have hdir : f.directory = true := by
        rw [if_neg (inside_ne_zero hmirror.unfolds hin)] at hstop
        by_contra hno
        rw [if_pos (fun he => hno (hat.type_iff.mp he))] at hstop
        exact nomatch hstop
      dsimp only
      by_cases hdots : c = [dot, dot]
      · rw [if_pos hdots, if_pos hdots]
        exact .inr ⟨rfl, hmirror, hmirror.unfolds.parent hnames, hlater⟩
      by_cases hdot : c = [dot]
      · rw [if_neg hdots, if_neg hdots, if_pos hdot, if_pos hdot]
        exact .inr ⟨rfl, hmirror, hnames, hlater⟩
      rw [if_neg hdots, if_neg hdots, if_neg hdot, if_neg hdot]
      obtain ⟨hend, hmirror', hscan, hloaded⟩ := hmirror.scan hw hdirs hample hnames hf hdir
      generalize w.scan new fp = x at hend hmirror' hscan hloaded
      obtain ⟨ending, w'⟩ := x
      dsimp only at hend hmirror' hscan hloaded ⊢
      have hlater' : Later root t w'.tree := fun place n hn => hscan place n (hlater place n hn)
      rw [if_neg (not_not.mpr hend)]
      rcases hmirror'.unfolds.find (hscan place fp hnames) hloaded c with
        ⟨hnone, hdisk⟩ | ⟨hne, hfollow, hplaced, hdisk⟩
      · rw [if_pos hnone, if_neg (by rw [hdisk]; decide)]
        exact .inl ⟨rfl, hmirror', rfl, hlater'⟩
      · rw [if_neg hne, if_pos hdisk, hfollow]
        exact .inr ⟨rfl, hmirror', hplaced, hlater'⟩

/-- **`path` leads to the file that it leads to on the disk**, whatever has been loaded before,
and commits a fault where it is to. -/
theorem path_agrees (hw : m.Works disk cap good) (hdirs : m.DirectoriesOn disk dirs cap)
    (hample : Ample new root) (h : m.Mirror disk good dirs root w) {currentDir : Option Nat}
    {currentPlace : Option (Option Place)}
    (hcurrent : Option.Rel (Names root w.tree) currentDir currentPlace) (heap : Nat → Bool)
    (p : CString) :
    Scanner.Agree (m.Finds disk good dirs root w.tree) (w.path new root currentDir heap p)
      (dirs.path currentPlace heap p) := by
  have hsim : Scanner.Simulates (Live.pathScanner new) dirs.pathScanner
      (m.Tracks disk good dirs root w.tree) (m.Finds disk good dirs root w.tree) :=
    { finish := fun _ _ h => ⟨rfl, h.mirror, h.names, h.later⟩
      stop := fun _ _ h => h.stop
      granted := fun _ _ h => congrFun h.heap 0
      act := fun _ _ c h hstop => h.act hw hdirs hample c hstop }
  have hroot : Names root w.tree root (some []) := rfl
  have hgetD : Names root w.tree (currentDir.getD root) (currentPlace.getD (some [])) := by
    cases hcurrent with
    | none => exact hroot
    | some hn => exact hn
  have hstart : Names root w.tree
      (if p.chars.head? = some slash then root else currentDir.getD root)
      (if p.chars.head? = some slash then some [] else currentPlace.getD (some [])) := by
    split
    · exact hroot
    · exact hgetD
  have hpath : w.path new root currentDir heap p = (Live.pathScanner new).walk
      (heap, w, if p.chars.head? = some slash then root else currentDir.getD root)
      (tokens slash 0 p.chars) := by
    rw [← Scanner.scan_eq_walk]
    unfold Live.path
    rw [charAt_drop (Nat.zero_le _) rfl, List.drop_zero]
    dsimp only [bind, Except.bind]
    cases p.chars with
    | nil => rfl
    | cons a l =>
        by_cases ha : a = slash
        · subst ha
          rfl
        · rw [if_pos (show (a :: l).headD 0 ≠ slash from ha),
            if_neg (show (a :: l).head? ≠ some slash from fun e => ha (Option.some.inj e))]
  rw [hpath]
  exact hsim.walk ⟨rfl, h, hstart, fun _ _ hn => hn⟩ _

end Ext2Mount

end KmOS
