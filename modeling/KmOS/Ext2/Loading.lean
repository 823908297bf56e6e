/-
# `KmOS.Ext2.Loading` — what loading a directory adds

A directory on disk is a file whose blocks are full of entries
(`DirectoryOn`).  `addBlocks` goes through its entries with the answers of the
device as a tape, and says which of them become nodes and how many blocks are
read; `load_directory` does the same (`loadDirectory_loads`).  A read of a block
that fails ends the loading, a read of an inode that fails leaves one entry out.
-/
import KmOS.Lib.Tape
import KmOS.Ext2.Address

namespace KmOS

/-! ## Directories on disk -/

/-- What an entry that is in use says. -/
structure Entry where
  inode : Nat
  fileType : UInt8
  name : List UInt8

def Ext2DirEntry.entry (e : Ext2DirEntry) : Entry :=
  ⟨e.inode, e.fileType, (List.range e.nameLen).map e.name⟩

/-- The name, up to the character that ends a string. -/
def Entry.chars (e : Entry) : List UInt8 := e.name.takeWhile (· ≠ 0)

theorem entry_chars (b : Buffer) (o : Nat) :
    (dirEntryAt b o).entry.chars = (dirEntryAt b o).chars := by
  unfold Ext2DirEntry.chars
  rw [copied_eq]
  rfl

/-- The entry is in use. -/
def Ext2DirEntry.Live (e : Ext2DirEntry) : Prop := e.inode ≠ 0 ∧ e.nameLen ≠ 0

/-- An entry for the directory itself or for its parent. -/
def Entry.Special (e : Entry) : Prop := e.chars = [dot] ∨ e.chars = [dot, dot]

/-- An entry for a directory or a regular file. -/
def Entry.Kept (e : Entry) : Prop :=
  e.fileType = ext2FtDir ∨ e.fileType = ext2FtRegFile ∨ e.fileType = 0

instance (e : Entry) : Decidable e.Special := inferInstanceAs (Decidable (_ ∨ _))

instance (e : Entry) : Decidable e.Kept := inferInstanceAs (Decidable (_ ∨ _))

/-- From `o` on the block is full of entries, of which `es` are in use. -/
inductive Tiled (block : Buffer) (blockSize : Nat) : Nat → List Entry → Prop
  | full : Tiled block blockSize blockSize []
  | unused {o : Nat} {es : List Entry} :
      8 + (dirEntryAt block o).nameLen ≤ (dirEntryAt block o).recLen →
      o + (dirEntryAt block o).recLen ≤ blockSize → ¬(dirEntryAt block o).Live →
      Tiled block blockSize (o + (dirEntryAt block o).recLen) es → Tiled block blockSize o es
  | used {o : Nat} {es : List Entry} :
      8 + (dirEntryAt block o).nameLen ≤ (dirEntryAt block o).recLen →
      o + (dirEntryAt block o).recLen ≤ blockSize → (dirEntryAt block o).Live →
      Tiled block blockSize (o + (dirEntryAt block o).recLen) es →
      Tiled block blockSize o ((dirEntryAt block o).entry :: es)

section
variable {b b' : Buffer} {n o : Nat}

/-- An entry that is inside is read from the bytes inside. -/
theorem dirEntryAt_congr (h : ∀ i < n, b' i = b i)
    (hname : 8 + (dirEntryAt b o).nameLen ≤ (dirEntryAt b o).recLen)
    (hin : o + (dirEntryAt b o).recLen ≤ n) :
    (dirEntryAt b' o).recLen = (dirEntryAt b o).recLen ∧
      (dirEntryAt b' o).nameLen = (dirEntryAt b o).nameLen ∧
      (dirEntryAt b' o).entry = (dirEntryAt b o).entry := by
  have hbyte : ∀ i, i < 8 → b' (o + i) = b (o + i) := fun i hi => h _ (by omega)
  have hlen : (dirEntryAt b' o).recLen = (dirEntryAt b o).recLen := by
    show Buffer.load16 b' (o + 4) = Buffer.load16 b (o + 4)
    unfold Buffer.load16
    rw [hbyte 4 (by decide), Nat.add_assoc o 4 1, hbyte 5 (by decide)]
  have hnameLen : (dirEntryAt b' o).nameLen = (dirEntryAt b o).nameLen :=
    congrArg UInt8.toNat (hbyte 6 (by decide))
  have hinode : (dirEntryAt b' o).inode = (dirEntryAt b o).inode := by
    show Memory.load32 b' o = Memory.load32 b o
    exact Memory.load32_congr fun j _ _ => h j (by omega)
  refine ⟨hlen, hnameLen, ?_⟩
  unfold Ext2DirEntry.entry
  rw [hinode, hnameLen]
  congr 1
  · exact hbyte 7 (by decide)
  · refine List.map_congr_left fun i hi => ?_
    have hi' := List.mem_range.mp hi
    exact h (o + 8 + i) (by omega)

theorem Tiled.congr {es : List Entry} (h : ∀ i < n, b' i = b i) (ht : Tiled b n o es) :
    Tiled b' n o es := by
  induction ht with
  | full => exact .full
  | @unused o _ hname hin hlive _ ih =>
      obtain ⟨hlen, hnameLen, hentry⟩ := dirEntryAt_congr h hname hin
      have hinode : (dirEntryAt b' o).inode = (dirEntryAt b o).inode := congrArg Entry.inode hentry
      refine .unused (by rw [hlen, hnameLen]; exact hname) (by rw [hlen]; exact hin) ?_ (hlen ▸ ih)
      unfold Ext2DirEntry.Live
      rw [hnameLen]
      exact fun hl => hlive ⟨hinode ▸ hl.1, hl.2⟩
  | @used o _ hname hin hlive _ ih =>
      obtain ⟨hlen, hnameLen, hentry⟩ := dirEntryAt_congr h hname hin
      have hinode : (dirEntryAt b' o).inode = (dirEntryAt b o).inode := congrArg Entry.inode hentry
      rw [← hentry]
      refine .used (by rw [hlen, hnameLen]; exact hname) (by rw [hlen]; exact hin) ?_ (hlen ▸ ih)
      exact ⟨hinode ▸ hlive.1, hnameLen ▸ hlive.2⟩

end

/-! ## Inodes on disk -/

/-- The same file. -/
structure Ext2Inode.Same (a b : Ext2Inode) : Prop where
  iSize : a.iSize = b.iSize
  iBlock : ∀ j ≤ 12, a.iBlock j = b.iBlock j

namespace Ext2Mount

variable {σ : Type} (m : Ext2Mount σ)

/-- The inode `ino` of the disk. -/
def diskInode (disk : Buffer) (ino : Nat) : Ext2Inode := inodeAt (disk.drop (m.inodePlace ino))

/-- The inode `ino` is in the table, and all of it is on the device. -/
structure InodeOn (cap ino : Nat) : Prop where
  listed : m.HasInode ino
  below : m.inodePlace ino + m.inodeSize ≤ cap

/-- The directory has blocks that are full, with `blocks` as the entries in use.
Their inodes are on the device, or not in the table at all. -/
structure DirectoryOn (disk : Buffer) (cap : Nat) (inode : Ext2Inode) (blocks : List (List Entry)) :
    Prop where
  size : inode.iSize = blocks.length * m.blockSize
  mapped : ∀ j < blocks.length, m.Mapped disk cap inode j
  tiled : ∀ j es, blocks[j]? = some es →
    Tiled (disk.drop (m.blockNumber disk inode j * m.blockSize)) m.blockSize 0 es
  inodes : ∀ es ∈ blocks, ∀ e ∈ es, m.HasInode e.inode → m.InodeOn cap e.inode

variable {m} {disk : Buffer} {cap : Nat} {good : List Bool → Volume σ → Prop} {as : List Bool}
  {v : Volume σ} {inode inode' : Ext2Inode}

theorem blockNumber_congr (h : inode'.Same inode) (j : Nat) :
    m.blockNumber disk inode' j = m.blockNumber disk inode j := by
  unfold blockNumber
  split
  · next hj => exact h.iBlock j (Nat.le_of_lt hj)
  · rw [h.iBlock 12 (Nat.le_refl 12)]

theorem Mapped.congr (h : inode'.Same inode) {j : Nat} (hm : m.Mapped disk cap inode j) :
    m.Mapped disk cap inode' j := by
  have h12 := h.iBlock 12 (Nat.le_refl 12)
  refine ⟨hm.index, fun hj => ?_, ?_, ?_⟩
  · rw [h12]
    exact hm.indirect hj
  · rw [blockNumber_congr h]
    exact hm.number
  · rw [blockNumber_congr h]
    exact hm.below

theorem DirectoryOn.congr (h : inode'.Same inode) {blocks : List (List Entry)}
    (hd : m.DirectoryOn disk cap inode blocks) : m.DirectoryOn disk cap inode' blocks where
  size := h.iSize.trans hd.size
  mapped j hj := (hd.mapped j hj).congr h
  tiled j es he := by
    rw [blockNumber_congr h]
    exact hd.tiled j es he
  inodes := hd.inodes

/-- Without an inode there is nothing to read. -/
theorem readInode_outside {ino : Nat} (hipg : m.inodesPerGroup ≠ 0) (h : ¬m.HasInode ino) :
    m.readInode v ino = some (none, v) := by
  unfold readInode
  by_cases h0 : ino = 0
  · rw [if_pos h0]
  · have hge : m.groupCount ≤ (ino - 1) / m.inodesPerGroup :=
      Nat.le_of_not_lt fun hlt => h ⟨h0, hipg, hlt⟩
    rw [if_neg h0]
    dsimp only
    rw [if_neg hipg, if_pos hge]

/-- What is read into a buffer is the inode. -/
theorem inodeAt_same {b b' : Buffer} (h : ∀ i < sizeofInode, b' i = b i) :
    (inodeAt b').Same (inodeAt b) where
  iSize := Memory.load32_congr fun j _ hj => h j (Nat.lt_trans hj (by decide))
  iBlock j hj := Memory.load32_congr fun i _ hi => h i (by unfold sizeofInode; omega)

/-- **`read_inode`** finds an inode that is there, unless it cannot be read. -/
theorem Answers.readInode (ha : m.Answers disk cap good) (hcap : cap ≤ 2 ^ 32)
    (his : sizeofInode ≤ m.inodeSize) {ino : Nat} (hi : m.InodeOn cap ino) (hv : good as v) :
    ∃ r v', m.readInode v ino = some (r, v') ∧ good as.tail v' ∧
      if as.headD true = true then ∃ inode, r = some inode ∧ inode.Same (m.diskInode disk ino)
      else r = none := by
  obtain ⟨⟨h0, hipg, hgroup⟩, hbelow⟩ := hi
  obtain ⟨hpos, hlt⟩ := ha.inodeSize_bound hv
  obtain ⟨temp, heap, hk, hv'⟩ := ha.memory hv (Or.inr rfl)
  obtain ⟨code, buffer', v', hread, hcode, hbytes, hgood⟩ :=
    ha.read temp hv' (show m.inodePlace ino < 2 ^ 32 by omega) hpos (by omega) hbelow
  have hposition : m.inodePosition ino = m.inodePlace ino :=
    inodePosition_eq_iff.mpr (by omega)
  have he : m.readInode v ino =
      if code ≠ .ok then some (none, v') else some (some (inodeAt buffer'), v') := by
    unfold Ext2Mount.readInode
    rw [if_neg h0]
    dsimp only
    rw [if_neg hipg, if_neg (Nat.not_le.mpr hgroup), hk]
    dsimp only
    unfold inodePosition at hposition
    dsimp only at hposition
    rw [hposition, hread]
  by_cases hhead : as.headD true = true
  · have hok : code = .ok := hcode.mpr hhead
    rw [if_neg (not_not.mpr hok)] at he
    refine ⟨_, _, he, hgood, ?_⟩
    rw [if_pos hhead]
    exact ⟨_, rfl, inodeAt_same fun i hi => hbytes hok i (Nat.lt_of_lt_of_le hi his)⟩
  · have hno : code ≠ .ok := fun hok => hhead (hcode.mp hok)
    rw [if_pos hno] at he
    refine ⟨_, _, he, hgood, ?_⟩
    rw [if_neg hhead]

/-! ## Nodes -/

/-- The node `n` stands for the entry `e`. -/
structure Stands (m : Ext2Mount σ) (disk : Buffer) (t : Ext2Tree σ) (n : Nat) (e : Entry) : Prop where
  name : (t.file n).name = checkName e.chars
  type : (t.file n).type = if e.fileType = ext2FtDir then .directory else .file
  mount : (t.node n).mount = some m
  inode : (t.node n).inode = e.inode
  size : (t.node n).size = (m.diskInode disk e.inode).iSize

/-- Nothing about the node `x` has changed, but perhaps its links. -/
structure SameNode (t t' : Ext2Tree σ) (x : Nat) : Prop where
  name : (t'.file x).name = (t.file x).name
  type : (t'.file x).type = (t.file x).type
  node : t'.node x = t.node x

variable {t t' t'' : Ext2Tree σ} {dir n : Nat} {e : Entry} {es es' : List Entry}

theorem Stands.congr (h : SameNode t t' n) (hs : m.Stands disk t n e) : m.Stands disk t' n e where
  name := h.name.trans hs.name
  type := h.type.trans hs.type
  mount := (congrArg Ext2Node.mount h.node).trans hs.mount
  inode := (congrArg Ext2Node.inode h.node).trans hs.inode
  size := (congrArg Ext2Node.size h.node).trans hs.size

/-- `t'` is `t` with nodes for the entries `es`, the last one in front. -/
structure Added (m : Ext2Mount σ) (disk : Buffer) (dir : Nat) (t t' : Ext2Tree σ) (es : List Entry) :
    Prop where
  dirNode : t'.node dir = t.node dir
  kids : ∃ ns, t'.kids dir = ns.reverse ++ t.kids dir ∧ List.Forall₂ (m.Stands disk t') ns es
  kept : ∀ x ∈ t.kids dir, SameNode t t' x

theorem Added.refl (m : Ext2Mount σ) (disk : Buffer) (dir : Nat) (t : Ext2Tree σ) :
    m.Added disk dir t t [] :=
  ⟨rfl, ⟨[], rfl, .nil⟩, fun _ _ => ⟨rfl, rfl, rfl⟩⟩

theorem Added.trans (h : m.Added disk dir t t' es) (h' : m.Added disk dir t' t'' es') :
    m.Added disk dir t t'' (es ++ es') := by
  obtain ⟨ns, hkids, hns⟩ := h.kids
  obtain ⟨ns', hkids', hns'⟩ := h'.kids
  refine ⟨h'.dirNode.trans h.dirNode, ⟨ns ++ ns', ?_, ?_⟩, fun x hx => ?_⟩
  · rw [hkids', hkids, List.reverse_append, List.append_assoc]
  · -- the nodes that came first are children of `dir` already
    have hsame : ∀ n ∈ ns, SameNode t' t'' n := by
      intro n hn
      refine h'.kept n ?_
      rw [hkids]
      exact List.mem_append_left _ (List.mem_reverse.mpr hn)
    have hboth := (List.forall₂_and_left ns es).mpr ⟨hsame, hns⟩
    exact List.rel_append (hboth.imp fun _ _ h => h.2.congr h.1) hns'
  · have hx' : x ∈ t'.kids dir := by
      rw [hkids]
      exact List.mem_append_right _ hx
    have h₁ := h.kept x hx
    have h₂ := h'.kept x hx'
    exact ⟨h₂.name.trans h₁.name, h₂.type.trans h₁.type, h₂.node.trans h₁.node⟩

theorem Added.length (h : m.Added disk dir t t' es) :
    (t'.kids dir).length = es.length + (t.kids dir).length := by
  obtain ⟨ns, hkids, hns⟩ := h.kids
  rw [hkids, List.length_append, List.length_reverse, hns.length_eq]

/-- A node that has been added. -/
theorem Added.one {n : { n // t.Fresh dir n }} {type : FileType}
    (hm : (t.node dir).mount = some m)
    (htype : type = if e.fileType = ext2FtDir then .directory else .file) {size : Nat}
    (hsize : size = (m.diskInode disk e.inode).iSize) :
    m.Added disk dir t
      (t.addNode dir n e.chars type ⟨(t.node dir).mount, e.inode, size, false⟩) [e] := by
  obtain ⟨n, hn⟩ := n
  have hnode : ∀ x, x ≠ n → (t.addNode dir ⟨n, hn⟩ e.chars type
      ⟨(t.node dir).mount, e.inode, size, false⟩).node x = t.node x :=
    fun x hx => Function.update_of_ne hx _ _
  have hself : (t.addNode dir ⟨n, hn⟩ e.chars type
      ⟨(t.node dir).mount, e.inode, size, false⟩).node n =
        ⟨(t.node dir).mount, e.inode, size, false⟩ := Function.update_self _ _ _
  refine ⟨hnode dir hn.other.symm, ⟨[n], FileTree.addChild_kids, .cons ?_ .nil⟩, fun x hx => ?_⟩
  · constructor
    · exact (FileTree.addChild_name n).trans (if_pos rfl)
    · exact ((FileTree.addChild_type n).trans (if_pos rfl)).trans htype
    · rw [hself]
      exact hm
    · rw [hself]
    · rw [hself]
      exact hsize
  · have hne : x ≠ n := fun h => hn.apart dir (h ▸ hx)
    exact ⟨(FileTree.addChild_name x).trans (if_neg hne),
      (FileTree.addChild_type x).trans (if_neg hne), hnode x hne⟩

/-! ## Going through the entries -/

section
variable (m)

/-- `read_inode` asks the device for the inode of the entry. -/
def Asks (e : Entry) : Prop := ¬e.Special ∧ m.HasInode e.inode

instance (ino : Nat) : Decidable (m.HasInode ino) := inferInstanceAs (Decidable (_ ∧ _ ∧ _))

instance (e : Entry) : Decidable (m.Asks e) := inferInstanceAs (Decidable (_ ∧ _))

/-- The entries that are to become nodes. -/
def expected (es : List Entry) : List Entry := es.filter fun e => m.Asks e ∧ e.Kept

/-- What becomes of an entry, and what is left of the tape. -/
def addEntry (as : List Bool) (e : Entry) : List Entry × List Bool :=
  if m.Asks e then (if as.headD true = true ∧ e.Kept then [e] else [], as.tail) else ([], as)

/-- The entries that become nodes, and what is left of the tape. -/
def addEntries : List Bool → List Entry → List Entry × List Bool
  | as, [] => ([], as)
  | as, e :: es =>
      let (l, as) := m.addEntry as e
      let (l', as) := addEntries as es
      (l ++ l', as)

/-- Which reads the block with the index `j` needs: those of the indirect block
and of the block. -/
def blockReads (j : Nat) : List Bool := if j < 12 then [true] else [true, true]

/-- What is left of the tape when the block has been read. -/
def readsBlock (j : Nat) (as : List Bool) : Option (List Bool) :=
  if j < 12 then if as.headD true = true then some as.tail else none
  else if as.headD true = true ∧ as.tail.headD true = true then some as.tail.tail else none

/-- The number of blocks that are read from the index `j` on, and the entries that
become nodes. -/
def addBlocks : Nat → List Bool → List (List Entry) → Nat × List Entry
  | _, _, [] => (0, [])
  | j, as, es :: blocks =>
      match readsBlock j as with
      | none => (0, [])
      | some as =>
          let (l, as) := m.addEntries as es
          let (k, l') := addBlocks (j + 1) as blocks
          (k + 1, l ++ l')

/-- Which reads of inodes the entries of a block need: those of which nodes are
made. -/
def entryNeeds (es : List Entry) : List Bool :=
  (es.filter fun e => m.Asks e).map fun e => decide e.Kept

/-- Which reads the blocks from the index `j` on need. -/
def blockNeeds : Nat → List (List Entry) → List Bool
  | _, [] => []
  | j, es :: blocks => blockReads j ++ (m.entryNeeds es ++ blockNeeds (j + 1) blocks)

end

variable {as' : List Bool}

theorem addEntries_cons : m.addEntries as (e :: es) =
    ((m.addEntry as e).1 ++ (m.addEntries (m.addEntry as e).2 es).1,
      (m.addEntries (m.addEntry as e).2 es).2) := rfl

theorem entryNeeds_cons : m.entryNeeds (e :: es) =
    if m.Asks e then decide e.Kept :: m.entryNeeds es else m.entryNeeds es := by
  unfold entryNeeds
  rw [List.filter_cons]
  by_cases ha : m.Asks e <;> simp [ha]

theorem expected_cons : m.expected (e :: es) =
    if m.Asks e ∧ e.Kept then e :: m.expected es else m.expected es := by
  unfold expected
  rw [List.filter_cons]
  simp

theorem addEntry_sublist :
    List.Sublist ((m.addEntry as e).1 ++ m.expected es) (m.expected (e :: es)) := by
  rw [expected_cons]
  unfold addEntry
  grind

theorem addEntries_sublist (as : List Bool) (es : List Entry) :
    List.Sublist (m.addEntries as es).1 (m.expected es) := by
  induction es generalizing as with
  | nil => exact List.Sublist.refl _
  | cons e es ih =>
      rw [addEntries_cons]
      exact ((List.Sublist.refl _).append (ih _)).trans addEntry_sublist

/-- The entries of a block use up their part of the tape. -/
theorem addEntries_tape : (m.addEntries as es).2 = as.drop (m.entryNeeds es).length := by
  induction es generalizing as with
  | nil => rfl
  | cons e es ih =>
      rw [addEntries_cons, entryNeeds_cons, ih]
      unfold addEntry
      split
      · exact List.drop_tail
      · rfl

/-- **All nodes of a block are made** exactly if the reads that they need succeed. -/
theorem addEntries_eq_iff :
    (m.addEntries as es).1 = m.expected es ↔ Supplied (m.entryNeeds es) as := by
  induction es generalizing as with
  | nil => exact iff_of_true rfl (supplied_nil as)
  | cons e es ih =>
      rw [addEntries_cons, entryNeeds_cons, expected_cons]
      unfold addEntry
      by_cases ha : m.Asks e
      · rw [if_pos ha, if_pos ha, supplied_cons_iff, ← ih]
        by_cases hk : e.Kept
        · have hboth : m.Asks e ∧ e.Kept := ⟨ha, hk⟩
          rw [if_pos hboth]
          by_cases hhead : as.headD true = true
          · rw [if_pos ⟨hhead, hk⟩]
            exact ⟨fun h => ⟨fun _ => hhead, (List.cons.inj h).2⟩, fun h => congrArg (e :: ·) h.2⟩
          · rw [if_neg fun h => hhead h.1]
            refine iff_of_false (fun h => ?_) fun h => hhead (h.1 (decide_eq_true hk))
            -- one node is missing
            have hle : (m.addEntries as.tail es).1.length ≤ (m.expected es).length :=
              (addEntries_sublist _ _).length_le
            have heq : (m.addEntries as.tail es).1.length = (m.expected es).length + 1 :=
              congrArg List.length h
            omega
        · rw [if_neg fun h => hk h.2, if_neg fun h => hk h.2]
          exact ⟨fun h => ⟨fun hd => absurd (of_decide_eq_true hd) hk, h⟩, fun h => h.2⟩
      · rw [if_neg ha, if_neg ha, if_neg fun h => ha h.1, ← ih]
        rfl

theorem readsBlock_some {j : Nat} (h : Supplied (blockReads j) as) :
    readsBlock j as = some (as.drop (blockReads j).length) := by
  unfold blockReads readsBlock at *
  split at h
  · next hj =>
      rw [if_pos hj, if_pos hj, if_pos ((supplied_cons_iff.mp h).1 rfl)]
      exact congrArg some List.drop_one.symm
  · next hj =>
      obtain ⟨h₁, h₂⟩ := supplied_cons_iff.mp h
      rw [if_neg hj, if_neg hj, if_pos ⟨h₁ rfl, (supplied_cons_iff.mp h₂).1 rfl⟩]
      refine congrArg some ?_
      rw [← List.drop_one, ← List.drop_one, List.drop_drop]
      rfl

theorem readsBlock_none {j : Nat} (h : ¬Supplied (blockReads j) as) : readsBlock j as = none := by
  unfold blockReads readsBlock at *
  split at h
  · next hj =>
      rw [if_pos hj, if_neg fun h₁ => h (supplied_cons_iff.mpr ⟨fun _ => h₁, supplied_nil _⟩)]
  · next hj =>
      rw [if_neg hj, if_neg fun h₁ => h (supplied_cons_iff.mpr
        ⟨fun _ => h₁.1, supplied_cons_iff.mpr ⟨fun _ => h₁.2, supplied_nil _⟩⟩)]

/-- The two reads one after the other. -/
theorem supplied_blockReads_iff {j : Nat} : Supplied (blockReads j) as ↔
    (j < 12 ∨ as.headD true = true) ∧ (if j < 12 then as else as.tail).headD true = true := by
  unfold blockReads
  split
  · next hj =>
      rw [supplied_cons_iff, and_iff_left (supplied_nil _)]
      exact ⟨fun h => ⟨Or.inl hj, h rfl⟩, fun h _ => h.2⟩
  · next hj =>
      rw [supplied_cons_iff, supplied_cons_iff, and_iff_left (supplied_nil _)]
      exact ⟨fun h => ⟨Or.inr (h.1 rfl), h.2 rfl⟩,
        fun h => ⟨fun _ => h.1.resolve_left hj, fun _ => h.2⟩⟩

theorem drop_blockReads {j : Nat} :
    (if j < 12 then as else as.tail).tail = as.drop (blockReads j).length := by
  unfold blockReads
  split
  · exact List.drop_one.symm
  · rw [← List.drop_one, ← List.drop_one, List.drop_drop]
    rfl

theorem expected_flatten {blocks : List (List Entry)} :
    m.expected (es :: blocks).flatten = m.expected es ++ m.expected blocks.flatten := by
  unfold expected
  rw [List.flatten_cons, List.filter_append]

theorem addBlocks_sublist (j : Nat) (as : List Bool) (blocks : List (List Entry)) :
    List.Sublist (m.addBlocks j as blocks).2 (m.expected blocks.flatten) := by
  induction blocks generalizing j as with
  | nil => exact List.Sublist.refl _
  | cons es blocks ih =>
      unfold addBlocks
      split
      · exact List.nil_sublist _
      · rw [expected_flatten]
        exact (addEntries_sublist _ _).append (ih _ _)

/-- **All blocks are read and all nodes are made** exactly if the reads that are
needed succeed. -/
theorem addBlocks_eq_iff {j : Nat} {blocks : List (List Entry)} :
    m.addBlocks j as blocks = (blocks.length, m.expected blocks.flatten) ↔
      Supplied (m.blockNeeds j blocks) as := by
  induction blocks generalizing j as with
  | nil => exact iff_of_true rfl (supplied_nil as)
  | cons es blocks ih =>
      rw [blockNeeds, supplied_append_iff, supplied_append_iff, expected_flatten, addBlocks]
      by_cases hreads : Supplied (blockReads j) as
      · rw [readsBlock_some hreads, ← addEntries_eq_iff, ← addEntries_tape, ← ih]
        dsimp only
        have hle := addEntries_sublist (m := m) (as.drop (blockReads j).length) es
        generalize m.addEntries (as.drop (blockReads j).length) es = x at *
        have hle' := addBlocks_sublist (m := m) (j + 1) x.2 blocks
        generalize m.addBlocks (j + 1) x.2 blocks = y at *
        constructor
        · intro h
          obtain ⟨hk, hl⟩ := Prod.mk.inj h
          have hlen := congrArg List.length hl
          rw [List.length_append, List.length_append] at hlen
          have h₁ := hle.length_le
          have h₂ := hle'.length_le
          obtain ⟨hx, hy⟩ := List.append_inj hl (by omega)
          exact ⟨hreads, hx, Prod.ext (Nat.succ.inj hk) hy⟩
        · rintro ⟨-, hx, hy⟩
          rw [hx, hy]
          rfl
      · rw [readsBlock_none hreads]
        refine iff_of_false (fun h => ?_) fun h => hreads h.1
        exact absurd (congrArg Prod.fst h) (Nat.succ_ne_zero _).symm

/-! ## `load_directory` goes through them -/

/-- What loading relies on: the answers of the device and a mount that fits. -/
structure Works (m : Ext2Mount σ) (disk : Buffer) (cap : Nat) (good : List Bool → Volume σ → Prop) :
    Prop where
  answers : m.Answers disk cap good
  cap : cap ≤ 2 ^ 32
  ptrsPerBlock : m.ptrsPerBlock = m.blockSize / 4
  inodeSize : sizeofInode ≤ m.inodeSize
  inodesPerGroup : m.inodesPerGroup ≠ 0

/-- There is memory for that many children of `dir`, one after the other. -/
def Memory (new : New) (dir : Nat) : Nat → FileTree → Prop
  | 0, _ => True
  | k + 1, t => ∃ n, new t dir = some n ∧ ∀ name type, Memory new dir k (t.addChild dir n name type)

theorem Memory.pred {new : New} {k : Nat} {t : FileTree} (h : Memory new dir (k + 1) t) :
    Memory new dir k t := by
  induction k generalizing t with
  | zero => trivial
  | succ k ih =>
      obtain ⟨n, hn, hnext⟩ := h
      exact ⟨n, hn, fun name type => ih (hnext name type)⟩

variable {new : New} {k : Nat} {r : DirRead σ}

/-- A node is made for an entry of which the inode has been read. -/
theorem newChild_adds {t : Ext2Tree σ}
    (hm : (t.node dir).mount = some m) (hmem : Memory new dir (k + 1) t.toFileTree) (htree : r.tree = t)
    (hv : good as.tail r.volume) (hhead : as.headD true = true) (hkept : e.Kept)
    {type : FileType} (htype : type = if e.fileType = ext2FtDir then .directory else .file) {size : Nat}
    (hsize : size = (m.diskInode disk e.inode).iSize) :
    ∃ r', Ext2Mount.newChild new dir e.chars type e.inode size r = (.done, r') ∧
      good as.tail r'.volume ∧ Memory new dir k r'.tree.toFileTree ∧
      m.Added disk dir t r'.tree (if as.headD true = true ∧ e.Kept then [e] else []) := by
  subst htree
  obtain ⟨n, hn, hnext⟩ := hmem
  unfold Ext2Mount.newChild
  rw [hn, if_pos ⟨hhead, hkept⟩]
  exact ⟨_, rfl, hv, hnext _ _, Added.one hm htype hsize⟩

/-- **An entry in use** becomes what `addEntry` says. -/
theorem Works.readEntry (hw : m.Works disk cap good)
    (hm : (r.tree.node dir).mount = some m) (hmem : Memory new dir (k + 1) r.tree.toFileTree)
    (hv : good as r.volume) (hlive : (dirEntryAt r.blockBuffer r.offset).Live)
    (hon : m.HasInode (dirEntryAt r.blockBuffer r.offset).inode →
      m.InodeOn cap (dirEntryAt r.blockBuffer r.offset).inode) :
    ∃ r', m.readEntry new dir r = (.done, r') ∧
      good (m.addEntry as (dirEntryAt r.blockBuffer r.offset).entry).2 r'.volume ∧
      Memory new dir k r'.tree.toFileTree ∧ m.Added disk dir r.tree r'.tree
        (m.addEntry as (dirEntryAt r.blockBuffer r.offset).entry).1 := by
  have hchars := entry_chars r.blockBuffer r.offset
  unfold Ext2Mount.readEntry DirRead.look
  dsimp only
  generalize dirEntryAt r.blockBuffer r.offset = d at *
  rw [if_neg hlive.1, if_neg hlive.2, ← hchars]
  by_cases hs : d.entry.chars = [dot] ∨ d.entry.chars = [dot, dot]
  · have hquiet : ¬m.Asks d.entry := fun h => h.1 hs
    unfold addEntry
    rw [if_neg hquiet, if_pos hs]
    exact ⟨_, rfl, hv, hmem.pred, Added.refl _ _ _ _⟩
  rw [if_neg hs]
  by_cases hi : m.HasInode d.inode
  · have hasks : m.Asks d.entry := ⟨hs, hi⟩
    obtain ⟨res, v', hread, hgood, hres⟩ := hw.answers.readInode hw.cap hw.inodeSize (hon hi) hv
    unfold addEntry
    rw [hread, if_pos hasks]
    by_cases hhead : as.headD true = true
    · rw [if_pos hhead] at hres
      obtain ⟨inode, rfl, hsame⟩ := hres
      dsimp only
      split
      · next hdir =>
          refine newChild_adds (e := d.entry) hm hmem ?_ ?_ hhead (Or.inl hdir) (if_pos hdir).symm
            hsame.iSize
          · rfl
          · exact hgood
      next hdir =>
      split
      · next hreg =>
          refine newChild_adds (e := d.entry) hm hmem ?_ ?_ hhead (Or.inr hreg) (if_neg hdir).symm
            hsame.iSize
          · rfl
          · exact hgood
      next hreg =>
      rw [if_neg fun h => h.2.elim hdir hreg]
      exact ⟨_, rfl, hgood, hmem.pred, Added.refl _ _ _ _⟩
    · rw [if_neg hhead] at hres
      subst hres
      rw [if_neg fun h => hhead h.1]
      exact ⟨_, rfl, hgood, hmem.pred, Added.refl _ _ _ _⟩
  · have hquiet : ¬m.Asks d.entry := fun h => hi h.2
    unfold addEntry
    rw [readInode_outside hw.inodesPerGroup hi, if_neg hquiet]
    exact ⟨_, rfl, hv, hmem.pred, Added.refl _ _ _ _⟩

/-- An entry that is not in use leaves everything. -/
theorem readEntry_unused (m : Ext2Mount σ) (new : New) (dir : Nat) (r : DirRead σ)
    (hlive : ¬(dirEntryAt r.blockBuffer r.offset).Live) :
    ∃ r', m.readEntry new dir r = (.done, r') ∧ r'.volume = r.volume ∧ r'.tree = r.tree := by
  unfold readEntry
  dsimp only
  split
  · exact ⟨_, rfl, rfl, rfl⟩
  next hino =>
  split
  · exact ⟨_, rfl, rfl, rfl⟩
  next hlen => exact absurd ⟨hino, hlen⟩ hlive

/-- A turn of the inner loop, where nothing wraps. -/
theorem entryLoop_turn (total : Nat) {r₁ : DirRead σ} (hin : r.offset < m.blockSize)
    (hp : r.processed < total) (hlen : (dirEntryAt r.blockBuffer r.offset).recLen ≠ 0)
    (h : m.readEntry new dir (r.look (r.offset + 4) 2) = (.done, r₁))
    (hoffset : r.offset + (dirEntryAt r.blockBuffer r.offset).recLen < 2 ^ 32)
    (hprocessed : r.processed + (dirEntryAt r.blockBuffer r.offset).recLen < 2 ^ 32) :
    ∃ r₂, (∀ fuel, m.entryLoop new total dir (fuel + 1) r = m.entryLoop new total dir fuel r₂) ∧
      r₂.blockBuffer = r.blockBuffer ∧
      r₂.offset = r.offset + (dirEntryAt r.blockBuffer r.offset).recLen ∧
      r₂.processed = r.processed + (dirEntryAt r.blockBuffer r.offset).recLen ∧
      r₂.volume = r₁.volume ∧ r₂.tree = r₁.tree := by
  have hk := readEntry_keeps m new dir (r.look (r.offset + 4) 2)
  rw [h] at hk
  refine ⟨_, fun fuel => entryLoop_succ hin hp hlen h, hk.blockBuffer, ?_, ?_, rfl, rfl⟩
  · show (r₁.offset + (dirEntryAt r.blockBuffer r.offset).recLen) % 2 ^ 32 = _
    rw [show r₁.offset = r.offset from hk.offset, Nat.mod_eq_of_lt hoffset]
  · show (r₁.processed + (dirEntryAt r.blockBuffer r.offset).recLen) % 2 ^ 32 = _
    rw [show r₁.processed = r.processed from hk.processed, Nat.mod_eq_of_lt hprocessed]

/-- **The inner loop** goes through the entries of a block. -/
theorem Works.entryLoop (hw : m.Works disk cap good) {total o : Nat} {b : Buffer}
    (ht : Tiled b m.blockSize o es) (hb : r.blockBuffer = b) (ho : r.offset = o)
    (hm : (r.tree.node dir).mount = some m) (hmem : Memory new dir (es.length + k) r.tree.toFileTree)
    (hon : ∀ e ∈ es, m.HasInode e.inode → m.InodeOn cap e.inode) (hv : good as r.volume)
    (htotal : r.processed + (m.blockSize - o) ≤ total) (hlt : total < 2 ^ 32) {fuel : Nat}
    (hfuel : m.blockSize - o < fuel) :
    ∃ r', m.entryLoop new total dir fuel r = (.done, r') ∧
      r'.processed = r.processed + (m.blockSize - o) ∧ good (m.addEntries as es).2 r'.volume ∧
      Memory new dir k r'.tree.toFileTree ∧ m.Added disk dir r.tree r'.tree (m.addEntries as es).1 := by
  have hbs := (hw.answers.blockSize_bound hv).2
  obtain ⟨fuel, rfl⟩ : ∃ n, fuel = n + 1 := ⟨fuel - 1, by omega⟩
  induction ht generalizing r as fuel with
  | full =>
      rw [List.length_nil, Nat.zero_add] at hmem
      refine ⟨r, ?_, by omega, hv, hmem, Added.refl _ _ _ _⟩
      rw [Ext2Mount.entryLoop, if_neg (by omega)]
  | @unused o es hname hin hlive _ ih =>
      subst hb ho
      obtain ⟨r₁, he, hvol, htree⟩ := readEntry_unused m new dir (r.look (r.offset + 4) 2) hlive
      obtain ⟨r₂, hturn, hb₂, ho₂, hp₂, hvol₂, htree₂⟩ := entryLoop_turn total (by omega)
        (by omega) (by omega) he (by omega) (by omega)
      have htree' : r₂.tree = r.tree := htree₂.trans htree
      obtain ⟨fuel, rfl⟩ : ∃ n, fuel = n + 1 := ⟨fuel - 1, by omega⟩
      obtain ⟨r', he', hp', hv', hmem', hadd⟩ := ih hb₂ ho₂ (htree' ▸ hm) (htree' ▸ hmem) hon
        (hvol₂.trans hvol ▸ hv) (by omega) fuel (by omega)
      rw [hturn]
      exact ⟨r', he', by omega, hv', hmem', htree' ▸ hadd⟩
  | @used o es hname hin hlive _ ih =>
      subst hb ho
      rw [List.length_cons, Nat.add_right_comm] at hmem
      obtain ⟨r₁, he, hgood, hmem₁, hadd₁⟩ := hw.readEntry (r := r.look (r.offset + 4) 2) hm hmem hv
        hlive (hon _ List.mem_cons_self)
      obtain ⟨r₂, hturn, hb₂, ho₂, hp₂, hvol₂, htree₂⟩ := entryLoop_turn total (by omega)
        (by omega) (by omega) he (by omega) (by omega)
      have hadd₂ : m.Added disk dir r.tree r₂.tree
          (m.addEntry as (dirEntryAt r.blockBuffer r.offset).entry).1 := htree₂ ▸ hadd₁
      obtain ⟨fuel, rfl⟩ : ∃ n, fuel = n + 1 := ⟨fuel - 1, by omega⟩
      obtain ⟨r', he', hp', hv', hmem', hadd⟩ := ih hb₂ ho₂
        ((congrArg Ext2Node.mount hadd₂.dirNode).trans hm) (htree₂ ▸ hmem₁)
        (fun e he => hon e (List.mem_cons_of_mem _ he)) (hvol₂ ▸ hgood) (by omega) fuel (by omega)
      rw [hturn]
      exact ⟨r', he', by omega, hv', hmem', hadd₂.trans hadd⟩

/-- The numbers of the blocks that have been read. -/
def blocksRead (reads : List BlockRead) : List Nat :=
  (reads.filter fun x => x.code = .ok).map BlockRead.block

theorem blocksRead_append {reads : List BlockRead} {x : BlockRead} :
    blocksRead (reads ++ [x]) = blocksRead reads ++ if x.code = .ok then [x.block] else [] := by
  unfold blocksRead
  rw [List.filter_append, List.map_append, List.filter_singleton]
  by_cases h : x.code = .ok <;> simp [h]

/-- A turn of the outer loop that reads the block with the index `j`. -/
theorem Works.blockLoop_turn (hw : m.Works disk cap good) {blocks : List (List Entry)}
    (hd : m.DirectoryOn disk cap inode blocks) (hsize : inode.iSize < 2 ^ 32) {j : Nat}
    (hj : r.blockIndex = j) (hes : blocks[j]? = some es) (hp : r.processed = j * m.blockSize)
    (hm : (r.tree.node dir).mount = some m) (hmem : Memory new dir (es.length + k) r.tree.toFileTree)
    (hv : good as r.volume) (hsupplied : Supplied (blockReads j) as) :
    ∃ r₁, (∀ fuel, m.blockLoop new inode dir (fuel + 1) r = m.blockLoop new inode dir fuel r₁) ∧
      r₁.blockIndex = j + 1 ∧ r₁.processed = (j + 1) * m.blockSize ∧
      blocksRead r₁.blocks = blocksRead r.blocks ++ [m.blockNumber disk inode j] ∧
      good (m.addEntries (as.drop (blockReads j).length) es).2 r₁.volume ∧
      Memory new dir k r₁.tree.toFileTree ∧
      m.Added disk dir r.tree r₁.tree (m.addEntries (as.drop (blockReads j).length) es).1 := by
  subst hj
  obtain ⟨hpos, hbs⟩ := hw.answers.blockSize_bound hv
  obtain ⟨hj, -⟩ := List.getElem?_eq_some_iff.mp hes
  obtain ⟨hfirst, hsecond⟩ := supplied_blockReads_iff.mp hsupplied
  have hm' := hd.mapped _ hj
  have hend : (r.blockIndex + 1) * m.blockSize ≤ inode.iSize := by
    rw [hd.size]
    exact Nat.mul_le_mul_right _ hj
  rw [Nat.succ_mul] at hend ⊢
  obtain ⟨v₁, hblock, hv₁⟩ := hw.answers.getBlock hw.cap hw.ptrsPerBlock hm' hv
  rw [if_pos hfirst] at hblock
  obtain ⟨code, block, v₂, hread, hcode, hbytes, hv₂⟩ :=
    hw.answers.readBlock hw.cap hm'.below r.blockBuffer hv₁
  have hok : code = .ok := hcode.mpr hsecond
  rw [drop_blockReads] at hv₂
  have htiled : Tiled block m.blockSize 0 es := (hd.tiled _ _ hes).congr (hbytes hok)
  have hturns : m.blockSize - 0 < turns := by
    unfold turns wordSize
    omega
  obtain ⟨r₁, hentries, hp₁, hv₃, hmem₁, hadd⟩ := hw.entryLoop (r := { r with
      volume := v₂, blockBuffer := block, offset := 0
      blocks := r.blocks ++ [⟨m.blockNumber disk inode r.blockIndex,
        m.blockNumber disk inode r.blockIndex * m.blockSize % 2 ^ 32, code⟩] })
    htiled rfl rfl hm hmem (hd.inodes es (List.mem_of_getElem? hes)) hv₂
    (show r.processed + (m.blockSize - 0) ≤ inode.iSize by omega) hsize hturns
  obtain ⟨hindex₁, hblocks₁⟩ := entryLoop_keeps hentries
  dsimp only at hindex₁ hblocks₁ hp₁
  have hindex : r.blockIndex ≤ r.blockIndex * m.blockSize := Nat.le_mul_of_pos_right _ hpos
  refine ⟨{ r₁ with blockIndex := r.blockIndex + 1 }, fun fuel => ?_, rfl, ?_, ?_, hv₃, hmem₁, hadd⟩
  · rw [Ext2Mount.blockLoop, if_pos (by omega), hblock]
    dsimp only
    rw [hread]
    dsimp only
    rw [if_neg (not_not.mpr hok), hentries]
    dsimp only
    rw [hindex₁, Nat.mod_eq_of_lt (show r.blockIndex + 1 < 2 ^ 32 by omega)]
  · dsimp only
    omega
  · show blocksRead r₁.blocks = _
    rw [hblocks₁, blocksRead_append, if_pos hok]

/-- A turn in which a read fails ends the loop. -/
theorem Works.blockLoop_stop (hw : m.Works disk cap good) {blocks : List (List Entry)}
    (hd : m.DirectoryOn disk cap inode blocks) {j : Nat} (hj : r.blockIndex = j)
    (hlt : j < blocks.length) (hp : r.processed = j * m.blockSize) (hv : good as r.volume)
    (hsupplied : ¬Supplied (blockReads j) as) (fuel : Nat) :
    ∃ r₁, m.blockLoop new inode dir (fuel + 1) r = (.done, r₁) ∧
      blocksRead r₁.blocks = blocksRead r.blocks ∧ r₁.tree = r.tree := by
  subst hj
  obtain ⟨hpos, -⟩ := hw.answers.blockSize_bound hv
  have hm' := hd.mapped _ hlt
  have hend : (r.blockIndex + 1) * m.blockSize ≤ inode.iSize := by
    rw [hd.size]
    exact Nat.mul_le_mul_right _ hlt
  rw [Nat.succ_mul] at hend
  obtain ⟨v₁, hblock, hv₁⟩ := hw.answers.getBlock hw.cap hw.ptrsPerBlock hm' hv
  rw [Ext2Mount.blockLoop, if_pos (by omega), hblock]
  by_cases hfirst : r.blockIndex < 12 ∨ as.headD true = true
  · obtain ⟨code, block, v₂, hread, hcode, -⟩ :=
      hw.answers.readBlock hw.cap hm'.below r.blockBuffer hv₁
    have hno : code ≠ .ok := fun hok => hsupplied (supplied_blockReads_iff.mpr ⟨hfirst, hcode.mp hok⟩)
    rw [if_pos hfirst]
    dsimp only
    rw [hread]
    dsimp only
    rw [if_pos hno]
    refine ⟨_, rfl, ?_, rfl⟩
    rw [blocksRead_append, if_neg hno]
    exact List.append_nil _
  · rw [if_neg hfirst]
    exact ⟨_, rfl, rfl, rfl⟩

/-- **The outer loop** goes through the blocks. -/
theorem Works.blockLoop (hw : m.Works disk cap good) {blocks rest : List (List Entry)}
    (hd : m.DirectoryOn disk cap inode blocks) (hsize : inode.iSize < 2 ^ 32) {j : Nat}
    (hj : r.blockIndex = j) (hrest : blocks.drop j = rest) (hle : j ≤ blocks.length)
    (hp : r.processed = j * m.blockSize) (hm : (r.tree.node dir).mount = some m)
    (hmem : Memory new dir rest.flatten.length r.tree.toFileTree) (hv : good as r.volume) {fuel : Nat}
    (hfuel : rest.length < fuel) :
    ∃ r', m.blockLoop new inode dir fuel r = (.done, r') ∧
      blocksRead r'.blocks = blocksRead r.blocks ++
        (List.range' j (m.addBlocks j as rest).1).map (m.blockNumber disk inode) ∧
      m.Added disk dir r.tree r'.tree (m.addBlocks j as rest).2 := by
  obtain ⟨fuel, rfl⟩ : ∃ n, fuel = n + 1 := ⟨fuel - 1, by omega⟩
  induction rest generalizing r as j fuel with
  | nil =>
      have hlen := List.drop_eq_nil_iff.mp hrest
      have hend : ¬r.processed < inode.iSize := by
        rw [hp, hd.size, Nat.le_antisymm hle hlen]
        exact Nat.lt_irrefl _
      refine ⟨r, ?_, (List.append_nil _).symm, Added.refl _ _ _ _⟩
      rw [Ext2Mount.blockLoop, if_neg hend]
  | cons es rest ih =>
      have hes : blocks[j]? = some es := by
        rw [← List.head?_drop, hrest]
        rfl
      have hrest' : blocks.drop (j + 1) = rest := by
        rw [← List.tail_drop, hrest]
        rfl
      obtain ⟨hlt, -⟩ := List.getElem?_eq_some_iff.mp hes
      rw [List.flatten_cons, List.length_append] at hmem
      rw [List.length_cons] at hfuel
      obtain ⟨fuel, rfl⟩ : ∃ n, fuel = n + 1 := ⟨fuel - 1, by omega⟩
      by_cases hsupplied : Supplied (blockReads j) as
      · obtain ⟨r₁, hturn, hj₁, hp₁, hblocks₁, hv₁, hmem₁, hadd⟩ :=
          hw.blockLoop_turn hd hsize hj hes hp hm hmem hv hsupplied
        obtain ⟨r', he', hblocks', hadd'⟩ := ih hj₁ hrest' hlt hp₁
          ((congrArg Ext2Node.mount hadd.dirNode).trans hm) hmem₁ hv₁ fuel (by omega)
        rw [hturn, addBlocks, readsBlock_some hsupplied]
        refine ⟨r', he', ?_, hadd.trans hadd'⟩
        rw [hblocks', hblocks₁, List.append_assoc]
        rfl
      · obtain ⟨r', he', hblocks', htree'⟩ := hw.blockLoop_stop hd hj hlt hp hv hsupplied (fuel + 1)
        rw [he', addBlocks, readsBlock_none hsupplied]
        refine ⟨r', rfl, hblocks'.trans (List.append_nil _).symm, ?_⟩
        rw [htree']
        exact Added.refl _ _ _ _

/-- What loading leaves: the blocks that have been read are the first ones, and the
nodes are those of `addBlocks`. -/
structure Loads (m : Ext2Mount σ) (disk : Buffer) (dir : Nat) (t : Ext2Tree σ)
    (blocks : List (List Entry)) (as : List Bool) (res : LoadResult σ) : Prop where
  ret : res.ret = true
  read : blocksRead res.blocks = (List.range (m.addBlocks 0 as blocks).1).map
    (m.blockNumber disk (m.diskInode disk (t.node dir).inode))
  tree : ∃ size, m.Added disk dir (t.setSize dir size) res.tree (m.addBlocks 0 as blocks).2

/-- **`load_directory`** does nothing if it cannot read the inode of the directory,
and else what `addBlocks` says. -/
theorem Works.loadDirectory (hw : m.Works disk cap good) {t : Ext2Tree σ}
    (hdir : dir ≠ 0) (hi : m.InodeOn cap (t.node dir).inode) {blocks : List (List Entry)}
    (hd : m.DirectoryOn disk cap (m.diskInode disk (t.node dir).inode) blocks)
    (hm : (t.node dir).mount = some m) (hmem : Memory new dir blocks.flatten.length t.toFileTree)
    (hv : good as v) :
    (m.loadDirectory new v t dir).ending = .done ∧
      if as.headD true = true then m.Loads disk dir t blocks as.tail (m.loadDirectory new v t dir)
      else (m.loadDirectory new v t dir).ret = false ∧ (m.loadDirectory new v t dir).tree = t := by
  obtain ⟨res, v₁, hread, hv₁, hres⟩ := hw.answers.readInode hw.cap hw.inodeSize hi hv
  by_cases hhead : as.headD true = true
  · rw [if_pos hhead] at hres
    obtain ⟨inode, rfl, hsame⟩ := hres
    obtain ⟨block, heap, hk, hv₂⟩ := hw.answers.memory hv₁ (Or.inl rfl)
    obtain ⟨hpos, -⟩ := hw.answers.blockSize_bound hv₁
    have hsize : inode.iSize < 2 ^ 32 := by
      rw [hsame.iSize]
      exact Memory.load32_lt _ _
    have hd' := hd.congr hsame
    have hlength : blocks.length ≤ inode.iSize := by
      rw [hd'.size]
      exact Nat.le_mul_of_pos_right _ hpos
    have hmount : ((t.setSize dir inode.iSize).node dir).mount = some m := by
      show (Function.update t.node dir _ dir).mount = some m
      rw [Function.update_self]
      exact hm
    obtain ⟨r', hloop, hblocks, hadd⟩ := hw.blockLoop (r := {
        volume := { v₁ with heap := heap }, tree := t.setSize dir inode.iSize, blockBuffer := block
        processed := 0, blockIndex := 0, offset := 0, blocks := [], looked := [] })
      hd' hsize rfl rfl (Nat.zero_le _) (Nat.zero_mul _).symm hmount hmem hv₂
      (show blocks.length < turns by unfold turns wordSize; omega)
    have he : m.loadDirectory new v t dir = ⟨.done, true, r'.volume, r'.tree, r'.blocks⟩ := by
      unfold Ext2Mount.loadDirectory
      rw [if_neg hdir, hread]
      dsimp only
      rw [hk]
      dsimp only
      rw [hloop]
    rw [if_pos hhead, he]
    refine ⟨rfl, rfl, ?_, _, hadd⟩
    rw [List.range_eq_range']
    refine hblocks.trans (List.map_congr_left fun j _ => ?_)
    exact blockNumber_congr hsame j
  · rw [if_neg hhead] at hres
    subst hres
    have he : m.loadDirectory new v t dir = ⟨.done, false, v₁, t, []⟩ := by
      unfold Ext2Mount.loadDirectory
      rw [if_neg hdir, hread]
    rw [if_neg hhead, he]
    exact ⟨rfl, rfl, rfl⟩

end Ext2Mount

end KmOS
