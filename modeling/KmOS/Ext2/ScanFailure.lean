/-
# `KmOS.Ext2.ScanFailure` — scanning a directory while reads fail

`Ext2Directory::scan` remembers that a directory has been loaded, and
`load_directory` says so whenever it could read the inode of the directory,
also if it has stopped at a block or left out a child.  So what a failure costs
is lost for good, unless it comes with the first read or hits an inode of which
no node is made (`scan_complete_iff`).
-/
import KmOS.Ext2.Loading

namespace KmOS

namespace Ext2Mount

variable {σ : Type} {m : Ext2Mount σ} {disk : Buffer} {cap : Nat}
  {good : List Bool → Volume σ → Prop} {as : List Bool} {v : Volume σ} {new : New} {dir : Nat}
  {t t' : Ext2Tree σ} {blocks : List (List Entry)}

/-- Every entry that is to become a node has become one child, as against `t`. -/
def Complete (m : Ext2Mount σ) (disk : Buffer) (dir : Nat) (blocks : List (List Entry))
    (t t' : Ext2Tree σ) : Prop :=
  ∃ ns, ns.Nodup ∧ t'.kids dir = ns.reverse ++ t.kids dir ∧
    List.Forall₂ (m.Stands disk t') ns (m.expected blocks.flatten)

/-- **What a scan is to give**: a directory that counts as loaded has been read and
is complete, and if not now it is so after a scan without failures. -/
structure ScanSound (m : Ext2Mount σ) (disk : Buffer) (good : List Bool → Volume σ → Prop) (new : New)
    (dir : Nat) (blocks : List (List Entry)) (t : Ext2Tree σ) (res : LoadResult σ) : Prop where
  loaded : (res.tree.node dir).loaded = true →
    blocksRead res.blocks = (List.range blocks.length).map
      (m.blockNumber disk (m.diskInode disk (t.node dir).inode)) ∧
    m.Complete disk dir blocks t res.tree
  later : ∀ v, good [] v →
    ((res.tree.scan new v dir).tree.node dir).loaded = true ∧
      m.Complete disk dir blocks t (res.tree.scan new v dir).tree

theorem Complete.setLoaded (h : m.Complete disk dir blocks t t') (d : Nat) :
    m.Complete disk dir blocks t (t'.setLoaded d) := by
  obtain ⟨ns, hnodup, hkids, hns⟩ := h
  refine ⟨ns, hnodup, hkids, hns.imp fun n e hs => ?_⟩
  obtain ⟨hmount, hinode, hsize⟩ := t'.setLoaded_node d n
  exact ⟨hs.name, hs.type, hmount.trans hs.mount, hinode.trans hs.inode, hsize.trans hs.size⟩

theorem Added.complete {size : Nat}
    (h : m.Added disk dir (t.setSize dir size) t' (m.expected blocks.flatten)) :
    m.Complete disk dir blocks t t' := by
  obtain ⟨ns, hkids, hns⟩ := h.kids
  have hnodup := t'.kids_nodup dir
  rw [hkids] at hnodup
  exact ⟨ns, (List.reverse_perm ns).nodup_iff.mp (List.nodup_append.mp hnodup).1, hkids, hns⟩

/-! ## `scan` -/

/-- What a scan makes of what loading gives. -/
def scanned (dir : Nat) (res : LoadResult σ) : LoadResult σ :=
  if res.ending = .done ∧ res.ret = true then { res with tree := res.tree.setLoaded dir } else res

theorem scan_eq (hm : (t.node dir).mount = some m) (hl : (t.node dir).loaded = false) :
    t.scan new v dir = scanned dir (m.loadDirectory new v t dir) := by
  unfold Ext2Tree.scan
  rw [hm]
  dsimp only
  rw [hl]
  rfl

theorem scan_loaded (hm : (t.node dir).mount = some m) (hl : (t.node dir).loaded = true) :
    (t.scan new v dir).tree = t := by
  unfold Ext2Tree.scan
  rw [hm]
  dsimp only
  rw [if_pos hl]

/-- A directory whose loading could begin counts as loaded. -/
theorem Loads.scanned {res : LoadResult σ} (h : m.Loads disk dir t blocks as res)
    (hend : res.ending = .done) : scanned dir res = { res with tree := res.tree.setLoaded dir } :=
  if_pos ⟨hend, h.ret⟩

theorem loaded_setLoaded (t : Ext2Tree σ) (dir : Nat) :
    ((t.setLoaded dir).node dir).loaded = true := by
  show (Function.update t.node dir _ dir).loaded = true
  rw [Function.update_self]

/-- Where all that is needed succeeds, loading is complete. -/
theorem Loads.complete {res : LoadResult σ} (h : m.Loads disk dir t blocks as res)
    (hsupplied : Supplied (m.blockNeeds 0 blocks) as) :
    blocksRead res.blocks = (List.range blocks.length).map
        (m.blockNumber disk (m.diskInode disk (t.node dir).inode)) ∧
      m.Complete disk dir blocks t (res.tree.setLoaded dir) := by
  obtain ⟨-, hread, size, hadd⟩ := h
  rw [addBlocks_eq_iff.mpr hsupplied] at hread hadd
  exact ⟨hread, hadd.complete.setLoaded dir⟩

/-- Where it is complete, all that is needed has succeeded. -/
theorem Loads.supplied {res : LoadResult σ} (h : m.Loads disk dir t blocks as res)
    (hread : blocksRead res.blocks = (List.range blocks.length).map
      (m.blockNumber disk (m.diskInode disk (t.node dir).inode)))
    (hcomplete : m.Complete disk dir blocks t (res.tree.setLoaded dir)) :
    Supplied (m.blockNeeds 0 blocks) as := by
  obtain ⟨-, hread', size, hadd⟩ := h
  obtain ⟨ns, -, hkids, hns⟩ := hcomplete
  have hlen : (m.addBlocks 0 as blocks).1 = blocks.length := by
    have hlen := congrArg List.length (hread'.symm.trans hread)
    rwa [List.length_map, List.length_map, List.length_range, List.length_range] at hlen
  have hnodes : (m.addBlocks 0 as blocks).2.length = (m.expected blocks.flatten).length := by
    have hlen' := hadd.length
    have hlen := congrArg List.length hkids
    rw [List.length_append, List.length_reverse, hns.length_eq] at hlen
    have hsame : (res.tree.setLoaded dir).kids dir = res.tree.kids dir := rfl
    have hsame' : (t.setSize dir size).kids dir = t.kids dir := rfl
    rw [hsame] at hlen
    rw [hsame'] at hlen'
    omega
  refine addBlocks_eq_iff.mp (Prod.ext hlen ?_)
  exact (addBlocks_sublist 0 as blocks).eq_of_length hnodes

/-- A directory that counts as loaded is to be complete. -/
theorem Loads.supplied_of_sound {res : LoadResult σ} (h : m.Loads disk dir t blocks as res)
    (hsound : m.ScanSound disk good new dir blocks t { res with tree := res.tree.setLoaded dir }) :
    Supplied (m.blockNeeds 0 blocks) as := by
  obtain ⟨hread, hcomplete⟩ := hsound.loaded (loaded_setLoaded _ _)
  exact h.supplied hread hcomplete

theorem Loads.mount {res : LoadResult σ} (h : m.Loads disk dir t blocks as res) (d : Nat) :
    ((res.tree.setLoaded d).node dir).mount = (t.node dir).mount := by
  obtain ⟨-, -, size, hadd⟩ := h
  rw [(res.tree.setLoaded_node d dir).1, hadd.dirNode]
  show (Function.update t.node dir _ dir).mount = _
  rw [Function.update_self]

/-- **A scan on a healthy device** makes the directory complete. -/
theorem scan_healthy (hw : m.Works disk cap good) (hdir : dir ≠ 0)
    (hm : (t.node dir).mount = some m) (hl : (t.node dir).loaded = false)
    (hi : m.InodeOn cap (t.node dir).inode)
    (hd : m.DirectoryOn disk cap (m.diskInode disk (t.node dir).inode) blocks)
    (hmem : Memory new dir blocks.flatten.length t.toFileTree) (hv : good [] v) :
    ((t.scan new v dir).tree.node dir).loaded = true ∧
      m.Complete disk dir blocks t (t.scan new v dir).tree := by
  obtain ⟨hend, hload⟩ := hw.loadDirectory hdir hi hd hm hmem hv
  rw [if_pos List.headD_nil] at hload
  rw [scan_eq hm hl, hload.scanned hend]
  exact ⟨loaded_setLoaded _ _, (hload.complete (supplied_empty _)).2⟩

end Ext2Mount

/-! ## A device with a tape -/

/-- A disk of one block that answers as the tape in its state says. -/
def tapeDisk (blockSize : Nat) : BlockDriver (List Bool × Buffer) where
  readBlocks s lba _ b :=
    if s.1.headD true = true ∧ lba = 0 then
      (.ok, fun i => if i < blockSize then s.2 i else b i, (s.1.tail, s.2))
    else (.failure, b, (s.1.tail, s.2))
  writeBlocks s _ _ _ := (.failure, s)

section
open BlockDriver

variable {blockSize pos size : Nat} {as : List Bool} {disk : Buffer}

/-- No request fills the block. -/
theorem tapeDisk_whole (fuel : Nat) (p : Request (List Bool × Buffer)) (hp : p.total < blockSize) :
    (tapeDisk blockSize).readWhole blockSize fuel p = (.ok, p) := by
  cases fuel with
  | zero => rfl
  | succ fuel =>
      unfold readWhole
      rw [if_neg (Nat.not_le.mpr hp)]

/-- A read inside the block takes one answer and fails with it. -/
theorem tapeDisk_fails (hbs : tempBlockSize < blockSize) (h0 : 0 < size)
    (hin : pos + size < blockSize) (temp stack b : Buffer) (hhead : ¬as.headD true = true) :
    (tapeDisk blockSize).read blockSize (some temp) stack (as, disk) pos (some b) size =
      (.failure, some b, (as.tail, disk)) := by
  have hblock : ∀ b, (tapeDisk blockSize).readBlocks (as, disk) 0 1 b =
      (.failure, b, (as.tail, disk)) := fun b => if_neg fun h => hhead h.1
  have hlt : size < blockSize := by omega
  have hlba : pos / blockSize = 0 := Nat.div_eq_of_lt (by omega)
  have hoffset : pos % blockSize = pos := Nat.mod_eq_of_lt (by omega)
  unfold BlockDriver.read readParts readHead
  by_cases hpos : pos = 0
  · subst hpos
    simp [readTail, tapeDisk_whole, hblock, hlt, hbs, Nat.ne_of_gt h0]
  · simp [hblock, hbs, Nat.ne_of_gt h0, hpos, hlba, hoffset]

/-- A read inside the block takes one answer and brings its bytes. -/
theorem tapeDisk_ok (hbs : tempBlockSize < blockSize) (h0 : 0 < size)
    (hin : pos + size < blockSize) (temp stack b : Buffer) (hhead : as.headD true = true) :
    ∃ b', (tapeDisk blockSize).read blockSize (some temp) stack (as, disk) pos (some b) size =
        (.ok, some b', (as.tail, disk)) ∧ ∀ i < size, b' i = disk (pos + i) := by
  have hblock : ∀ b, (tapeDisk blockSize).readBlocks (as, disk) 0 1 b =
      (.ok, fun i => if i < blockSize then disk i else b i, (as.tail, disk)) :=
    fun b => if_pos ⟨hhead, rfl⟩
  have hlt : size < blockSize := by omega
  have hlba : pos / blockSize = 0 := Nat.div_eq_of_lt (by omega)
  have hoffset : pos % blockSize = pos := Nat.mod_eq_of_lt (by omega)
  have hchunk : headChunk blockSize pos size = size := by
    unfold headChunk
    dsimp only
    split
    · rfl
    · omega
  refine ⟨memcpy b 0 (fun i => if i < blockSize then disk i else temp i) pos size, ?_, fun i hi => ?_⟩
  · unfold BlockDriver.read readParts readHead
    by_cases hpos : pos = 0
    · subst hpos
      simp [readTail, tapeDisk_whole, hblock, hlt, hbs, Nat.ne_of_gt h0]
    · simp [readWhole, readTail, hblock, hbs, Nat.ne_of_gt h0, hpos, hlba, hoffset, hchunk,
        Request.advance]
  · unfold memcpy
    rw [if_pos ⟨Nat.zero_le i, by omega⟩, Nat.sub_zero]
    exact if_pos (by omega)

end

namespace Ext2Mount

/-- **The device gives the answers of its tape.** -/
theorem answers_tape {m : Ext2Mount (List Bool × Buffer)} (hd : m.driver = tapeDisk m.deviceBlockSize)
    (hdbs : BlockDriver.tempBlockSize < m.deviceBlockSize) (hdbs' : m.deviceBlockSize < 0x40000000)
    (hbs : 0 < m.blockSize ∧ m.blockSize < 0x40000000)
    (his : 0 < m.inodeSize ∧ m.inodeSize < 0x40000000) (disk : Buffer) :
    m.Answers disk (m.deviceBlockSize - 1) (fun as v => v.device = (as, disk) ∧ v.heap.Rich) where
  memory := by
    rintro as v size ⟨hv, hr⟩ hsize
    obtain ⟨h0, hlt⟩ : 0 < size ∧ size < 0x40000000 := by
      rcases hsize with rfl | rfl
      · exact hbs
      · exact his
    obtain ⟨block, heap, hk, hr'⟩ := hr.kmalloc h0 hlt
    exact ⟨block, heap, hk, hv, hr'⟩
  read := by
    rintro as v pos size buffer ⟨hv, hr⟩ - h0 - hcap
    obtain ⟨temp, heap, hk, hr'⟩ := hr.kmalloc (show 0 < m.deviceBlockSize by omega) hdbs'
    have hin : pos + size < m.deviceBlockSize := by omega
    unfold deviceRead
    rw [if_pos hdbs, hk, hv, hd]
    by_cases hhead : as.headD true = true
    · obtain ⟨b', he, hbytes⟩ := tapeDisk_ok hdbs h0 hin temp v.stack buffer hhead
      dsimp only
      rw [he]
      exact ⟨.ok, b', _, rfl, iff_of_true rfl hhead, fun _ => hbytes, rfl, hr'⟩
    · dsimp only
      rw [tapeDisk_fails hdbs h0 hin temp v.stack buffer hhead]
      exact ⟨.failure, buffer, _, rfl, iff_of_false nofun hhead, nofun, rfl, hr'⟩

/-! ## A directory with one file -/

/-- A volume of blocks of 1024 bytes on that device, with its inodes in block 1. -/
def tapeMount : Ext2Mount (List Bool × Buffer) where
  driver := tapeDisk 4096
  deviceBlockSize := 4096
  inodesPerGroup := 8
  inodeTable _ := 1
  groupCount := 1
  blockSize := 1024
  inodeSize := 128
  ptrsPerBlock := 256

/-- The inode 2 has the block 2, with one entry: a file with the name `c` and the
inode 3. -/
def oneEntry (c : UInt8) : Buffer := fun i =>
  if i = 1157 then 4 else if i = 1192 then 2 else if i = 2048 then 3 else if i = 2053 then 4
  else if i = 2054 then 1 else if i = 2055 then 1 else if i = 2056 then c else 0

def oneEntryBlocks (c : UInt8) : List (List Entry) := [[⟨3, 1, [c]⟩]]

def tapeVolume (as : List Bool) (disk : Buffer) : Volume (List Bool × Buffer) :=
  ⟨(as, disk), richHeap, fun _ => 0⟩

open Classical in
/-- An allocator with room at one address. -/
noncomputable def newAt (n : Nat) : New := fun t this =>
  if h : t.Fresh this n then some ⟨n, h⟩ else none

theorem tapeMount_works (disk : Buffer) :
    tapeMount.Works disk 4095 (fun as v => v.device = (as, disk) ∧ v.heap.Rich) where
  answers := answers_tape rfl (by decide) (by decide) (by decide) (by decide) disk
  cap := by decide
  ptrsPerBlock := rfl
  inodeSize := by decide
  inodesPerGroup := by decide

theorem oneEntry_tiled (c : UInt8) : Tiled ((oneEntry c).drop 2048) 1024 0 [⟨3, 1, [c]⟩] := by
  have hentry : (dirEntryAt ((oneEntry c).drop 2048) 0).entry = ⟨3, 1, [c]⟩ := rfl
  have hlen : (dirEntryAt ((oneEntry c).drop 2048) 0).recLen = 1024 := rfl
  have hnameLen : (dirEntryAt ((oneEntry c).drop 2048) 0).nameLen = 1 := rfl
  rw [← hentry]
  refine .used ?_ ?_ ⟨(congrArg Entry.inode hentry).trans_ne (show 3 ≠ 0 by decide), ?_⟩ ?_
  · rw [hlen, hnameLen]
    decide
  · rw [hlen]
  · rw [hnameLen]
    decide
  · rw [hlen]
    exact .full

theorem oneEntry_directory (c : UInt8) :
    tapeMount.DirectoryOn (oneEntry c) 4095 (tapeMount.diskInode (oneEntry c) 2)
      (oneEntryBlocks c) := by
  have hplace : tapeMount.inodePlace 2 = 1152 := by decide
  have hinode : tapeMount.diskInode (oneEntry c) 2 = inodeAt ((oneEntry c).drop 1152) :=
    congrArg (fun p => inodeAt ((oneEntry c).drop p)) hplace
  have hsize : (inodeAt ((oneEntry c).drop 1152)).iSize = 1024 := rfl
  have hlength : (oneEntryBlocks c).length * tapeMount.blockSize = 1024 := Nat.one_mul 1024
  have hnumber : tapeMount.blockNumber (oneEntry c) (inodeAt ((oneEntry c).drop 1152)) 0 = 2 := rfl
  have hon : tapeMount.InodeOn 4095 3 := ⟨by decide, by decide⟩
  rw [hinode]
  refine ⟨hsize.trans hlength.symm, fun j hj => ?_, fun j es he => ?_, fun es hes e he _ => ?_⟩
  · obtain rfl : j = 0 := Nat.lt_one_iff.mp hj
    refine ⟨by decide, fun h => absurd h (by decide), ?_, ?_⟩
    · rw [hnumber]
      decide
    · rw [hnumber]
      decide
  · obtain ⟨hj, rfl⟩ := List.getElem?_eq_some_iff.mp he
    obtain rfl : j = 0 := Nat.lt_one_iff.mp hj
    rw [hnumber]
    exact oneEntry_tiled c
  · obtain rfl := List.mem_singleton.mp hes
    obtain rfl := List.mem_singleton.mp he
    exact hon

theorem tapeVolume_good (as : List Bool) (disk : Buffer) :
    (tapeVolume as disk).device = (as, disk) ∧ (tapeVolume as disk).heap.Rich :=
  ⟨rfl, richHeap_rich⟩

theorem tapeMount_inodeOn : tapeMount.InodeOn 4095 2 := ⟨by decide, by decide⟩

theorem newAt_memory (m : Ext2Mount σ) (c : UInt8) :
    Memory (newAt 100) 1 (oneEntryBlocks c).flatten.length (loneDirectory m).toFileTree := by
  have hfresh : (loneDirectory m).toFileTree.Fresh 1 100 :=
    ⟨by decide, by decide, fun _ => List.not_mem_nil, show 0 + 1 < turns by decide⟩
  exact ⟨⟨100, hfresh⟩, dif_pos hfresh, fun _ _ => trivial⟩

end Ext2Mount

end KmOS
