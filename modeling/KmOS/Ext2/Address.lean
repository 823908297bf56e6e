/-
# `KmOS.Ext2.Address` — where blocks and inodes are read from

The functions that end in `Reads` list the blocks that `get_block` and
`read_file_data` ask the device for, in order; `load_directory` and
`read_inode` record theirs.  The device takes positions of 32 bits.  So for a
volume that has been mounted all of them are exact if no block and no inode lies
behind 4 GiB, and otherwise some are not (`positions_exact_iff`).
-/
import KmOS.Ext2.Termination
import KmOS.Ext2.MountSafety

namespace KmOS

namespace Ext2Mount

/-! ## What is read -/

section
variable {σ : Type} (m : Ext2Mount σ)

/-- The reads of `get_block`. -/
def getBlockReads (inode : Ext2Inode) (v : Volume σ) (blockIndex : Nat) : List BlockRead :=
  if blockIndex < 12 then []
  else if blockIndex - 12 < m.ptrsPerBlock then
    let indirect := inode.iBlock 12
    if indirect = 0 then []
    else
      match v.heap.kmalloc m.blockSize with
      | (none, _) => []
      | (some entries, heap) =>
          let pos := indirect * m.blockSize % 2 ^ 32
          let (code, _, _) := m.deviceRead { v with heap := heap } pos entries m.blockSize
          [⟨indirect, pos, code⟩]
  else []

/-- The reads of the loop of `read_file_data`, with those of `get_block`. -/
def readLoopReads (inode : Ext2Inode) : Nat → FileRead σ → List BlockRead
  | 0, _ => []
  | fuel + 1, r =>
      if r.size = 0 then []
      else
        let reads := m.getBlockReads inode r.volume r.blockIndex
        let (block, v) := m.getBlock inode r.volume r.blockIndex
        let r := { r with volume := v }
        match block with
        | none => reads
        | some block =>
            let pos := block * m.blockSize % 2 ^ 32
            let (code, blockBuffer, v) := m.deviceRead r.volume pos r.blockBuffer m.blockSize
            let r := { r with volume := v, blockBuffer := blockBuffer }
            let reads := reads ++ [⟨block, pos, code⟩]
            if code ≠ .ok then reads
            else
              let chunk := BlockDriver.headChunk m.blockSize r.blockOffset r.size
              reads ++ readLoopReads inode fuel
                { r with
                  buffer := memcpy r.buffer r.totalRead r.blockBuffer r.blockOffset (intCount chunk)
                  size := r.size - chunk
                  totalRead := (r.totalRead + chunk) % 2 ^ 32
                  blockIndex := (r.blockIndex + 1) % 2 ^ 32
                  blockOffset := 0
                  moved := r.moved + intCount chunk }

/-- The reads of `read_file_data`. -/
def readFileDataReads (v : Volume σ) (inode : Ext2Inode) (offset : Nat) (buffer : Option Buffer)
    (size : Nat) : List BlockRead :=
  match buffer with
  | none => []
  | some b =>
      if size = 0 then []
      else if inode.iSize ≤ offset then []
      else if m.blockSize = 0 then []
      else
        match v.heap.kmalloc m.blockSize with
        | (none, _) => []
        | (some block, heap) =>
            let size := clip inode offset size
            m.readLoopReads inode size (m.freshRead { v with heap := heap } block b offset size)

/-- Where the inode `ino` lies. -/
def inodePlace (ino : Nat) : Nat :=
  m.inodeTable ((ino - 1) / m.inodesPerGroup) * m.blockSize +
    (ino - 1) % m.inodesPerGroup * m.inodeSize

/-- The inode `ino` is in the table of groups. -/
def HasInode (ino : Nat) : Prop :=
  ino ≠ 0 ∧ m.inodesPerGroup ≠ 0 ∧ (ino - 1) / m.inodesPerGroup < m.groupCount

/-- The blocks below `blocks` are read from where they lie. -/
def Exact (blocks : Nat) (reads : List BlockRead) : Prop :=
  ∀ x ∈ reads, x.block < blocks → x.pos = x.block * m.blockSize

/-- **All positions are exact.** -/
structure PositionsExact (blocks : Nat) : Prop where
  getBlock : ∀ inode v j, m.Exact blocks (m.getBlockReads inode v j)
  readFileData : ∀ v inode offset b size,
    m.Exact blocks (m.readFileDataReads v inode offset b size)
  loadDirectory : ∀ new v t dir, m.Exact blocks (m.loadDirectory new v t dir).blocks
  readInode : ∀ v ino pos size, ino < 2 ^ 32 → m.HasInode ino →
    .read pos size ∈ m.readInodeActions v ino → pos = m.inodePlace ino

/-- **No position is too large.** -/
structure PositionsFit (blocks : Nat) : Prop where
  blocks : blocks * m.blockSize ≤ 2 ^ 32
  inodes : ∀ ino, ino < 2 ^ 32 → m.HasInode ino → m.inodePlace ino < 2 ^ 32

end

variable {σ : Type} {m : Ext2Mount σ} {blocks : Nat} {inode : Ext2Inode} {v : Volume σ}

/-! ## The lists are complete -/

/-- Another device for the same volume, which answers the same where `reads` go. -/
structure SameAt (m m' : Ext2Mount σ) (reads : List BlockRead) : Prop where
  blockSize : m'.blockSize = m.blockSize
  ptrsPerBlock : m'.ptrsPerBlock = m.ptrsPerBlock
  answers : ∀ x ∈ reads, ∀ v b,
    m'.deviceRead v x.pos b m.blockSize = m.deviceRead v x.pos b m.blockSize

theorem SameAt.left {m' : Ext2Mount σ} {l l' : List BlockRead} (h : SameAt m m' (l ++ l')) :
    SameAt m m' l :=
  ⟨h.blockSize, h.ptrsPerBlock, fun x hx => h.answers x (List.mem_append_left _ hx)⟩

theorem SameAt.right {m' : Ext2Mount σ} {l l' : List BlockRead} (h : SameAt m m' (l ++ l')) :
    SameAt m m' l' :=
  ⟨h.blockSize, h.ptrsPerBlock, fun x hx => h.answers x (List.mem_append_right _ hx)⟩

theorem getBlock_congr {m' : Ext2Mount σ} {j : Nat} (h : SameAt m m' (m.getBlockReads inode v j)) :
    m'.getBlock inode v j = m.getBlock inode v j := by
  obtain ⟨hbs, hptrs, hsame⟩ := h
  unfold getBlockReads at hsame
  unfold getBlock
  rw [hbs, hptrs]
  split
  · rfl
  next hj =>
  rw [if_neg hj] at hsame
  dsimp only at hsame ⊢
  split
  · next hin =>
      rw [if_pos hin] at hsame
      split
      · rfl
      next h0 =>
      rw [if_neg h0] at hsame
      split
      · rfl
      · next hk =>
          rw [hk] at hsame
          rw [hsame _ (List.mem_singleton_self _)]
  · rfl

/-- **What is listed is all that is read** of a file. -/
theorem readLoop_congr {m' : Ext2Mount σ} {fuel : Nat} {r : FileRead σ}
    (h : SameAt m m' (m.readLoopReads inode fuel r)) :
    m'.readLoop inode fuel r = m.readLoop inode fuel r := by
  induction fuel generalizing r with
  | zero => rfl
  | succ fuel ih =>
      unfold readLoopReads at h
      unfold readLoop
      by_cases h0 : r.size = 0
      · rw [if_pos h0, if_pos h0]
      rw [if_neg h0] at h ⊢
      rw [if_neg h0]
      dsimp only at h ⊢
      rcases hblock : m.getBlock inode r.volume r.blockIndex with ⟨_ | block, v⟩
      · rw [hblock] at h
        rw [getBlock_congr h, hblock]
      · rw [hblock] at h
        dsimp only at h
        by_cases hok : (m.deviceRead v (block * m.blockSize % 2 ^ 32) r.blockBuffer m.blockSize).1 ≠ .ok
        · rw [if_pos hok] at h
          rw [getBlock_congr h.left, hblock]
          dsimp only
          have hsame := h.right.answers _ (List.mem_singleton_self _) v r.blockBuffer
          dsimp only at hsame
          rw [h.blockSize, hsame, if_pos hok, if_pos hok]
        · rw [if_neg hok] at h
          rw [getBlock_congr h.left.left, hblock]
          dsimp only
          have hsame := h.left.right.answers _ (List.mem_singleton_self _) v r.blockBuffer
          dsimp only at hsame
          rw [h.blockSize, hsame, if_neg hok, if_neg hok]
          exact ih h.right

/-! ## The positions -/

/-- Reads at the position that the code computes. -/
def Computed (m : Ext2Mount σ) (reads : List BlockRead) : Prop :=
  ∀ x ∈ reads, x.pos = m.blockPosition x.block

theorem Computed.nil : m.Computed [] := fun _ h => nomatch h

theorem Computed.singleton (block : Nat) (code : ReturnCode) :
    m.Computed [⟨block, m.blockPosition block, code⟩] := by
  intro x hx
  rw [List.mem_singleton.mp hx]

theorem Computed.append {l l' : List BlockRead} (h : m.Computed l) (h' : m.Computed l') :
    m.Computed (l ++ l') := by
  intro x hx
  rcases List.mem_append.mp hx with hx | hx
  · exact h x hx
  · exact h' x hx

theorem Computed.exact {l : List BlockRead} (h : m.Computed l) (hfit : blocks * m.blockSize ≤ 2 ^ 32) :
    m.Exact blocks l := by
  intro x hx hlt
  have hmul : (x.block + 1) * m.blockSize ≤ blocks * m.blockSize := Nat.mul_le_mul_right _ hlt
  rw [Nat.succ_mul] at hmul
  rw [h x hx]
  unfold blockPosition
  by_cases h0 : m.blockSize = 0
  · rw [h0, Nat.mul_zero, Nat.zero_mod]
  · exact Nat.mod_eq_of_lt (by omega)

theorem getBlockReads_computed (inode : Ext2Inode) (v : Volume σ) (j : Nat) :
    m.Computed (m.getBlockReads inode v j) := by
  unfold getBlockReads
  split
  · exact .nil
  split
  · dsimp only
    split
    · exact .nil
    split
    · exact .nil
    · exact .singleton _ _
  · exact .nil

theorem readLoopReads_computed {fuel : Nat} {r : FileRead σ} :
    m.Computed (m.readLoopReads inode fuel r) := by
  induction fuel generalizing r with
  | zero => exact .nil
  | succ fuel ih =>
      unfold readLoopReads
      split
      · exact .nil
      dsimp only
      split
      · exact getBlockReads_computed _ _ _
      have hreads {block : Nat} {code : ReturnCode} :=
        (getBlockReads_computed (m := m) inode r.volume r.blockIndex).append (.singleton block code)
      split
      · exact hreads
      · exact hreads.append ih

theorem readFileDataReads_computed {offset size : Nat} {b : Option Buffer} :
    m.Computed (m.readFileDataReads v inode offset b size) := by
  unfold readFileDataReads
  split
  · exact .nil
  split
  · exact .nil
  split
  · exact .nil
  split
  · exact .nil
  split
  · exact .nil
  · exact readLoopReads_computed

theorem blockLoop_computed {new : New} {dir fuel : Nat} {r : DirRead σ} (h : m.Computed r.blocks) :
    m.Computed (m.blockLoop new inode dir fuel r).2.blocks := by
  induction fuel generalizing r with
  | zero => exact h
  | succ fuel ih =>
      unfold blockLoop
      split
      · dsimp only
        split
        · exact h
        have hnext {block : Nat} {code : ReturnCode} := h.append (.singleton block code)
        split
        · exact hnext
        split
        · next hr =>
            refine ih ?_
            dsimp only
            rw [(entryLoop_keeps hr).2]
            exact hnext
        · rw [(entryLoop_keeps rfl).2]
          exact hnext
      · exact h

theorem loadDirectory_computed {new : New} {t : Ext2Tree σ} {dir : Nat} :
    m.Computed (m.loadDirectory new v t dir).blocks := by
  unfold loadDirectory
  split
  · exact .nil
  split
  · exact .nil
  · exact .nil
  dsimp only
  split
  · exact .nil
  · exact blockLoop_computed .nil

/-- A position of 32 bits is exact if it fits. -/
theorem inodePosition_eq_iff {ino : Nat} :
    m.inodePosition ino = m.inodePlace ino ↔ m.inodePlace ino < 2 ^ 32 := by
  constructor
  · intro h
    rw [← h]
    exact Nat.mod_lt _ (by decide)
  · intro h
    unfold inodePlace at *
    unfold inodePosition
    dsimp only
    rw [Nat.mod_eq_of_lt (show (ino - 1) % m.inodesPerGroup * m.inodeSize < 2 ^ 32 by omega),
      Nat.mod_eq_of_lt h]

/-! ## What goes wrong behind 4 GiB -/

/-- With memory, `get_block` reads the indirect block. -/
theorem getBlockReads_indirect (d : σ) (hbs : 0 < m.blockSize ∧ m.blockSize < 0x40000000)
    (hptrs : 0 < m.ptrsPerBlock) {b : Nat} (hb : b ≠ 0) :
    ∃ code, m.getBlockReads ⟨0, fun _ => b⟩ ⟨d, richHeap, fun _ => 0⟩ 12 =
      [⟨b, m.blockPosition b, code⟩] := by
  obtain ⟨entries, heap, hk, -⟩ := richHeap_rich.kmalloc hbs.1 hbs.2
  refine ⟨(m.deviceRead ⟨d, heap, fun _ => 0⟩ (m.blockPosition b) entries m.blockSize).1, ?_⟩
  unfold getBlockReads
  rw [if_neg (by decide), if_pos hptrs]
  dsimp only
  rw [if_neg hb, hk]
  rfl

/-- With memory, `read_inode` reads. -/
theorem readInodeActions_read (d : σ) (his : 0 < m.inodeSize ∧ m.inodeSize < 0x40000000) {ino : Nat}
    (h : m.HasInode ino) :
    .read (m.inodePosition ino) m.inodeSize ∈ m.readInodeActions ⟨d, richHeap, fun _ => 0⟩ ino := by
  obtain ⟨temp, heap, hk, -⟩ := richHeap_rich.kmalloc his.1 his.2
  unfold readInodeActions
  rw [if_neg h.1, if_neg h.2.1, if_neg (Nat.not_le.mpr h.2.2), hk]
  exact List.mem_append_left _ (List.mem_cons_of_mem _ (List.mem_singleton_self _))

/-- The blocks of a volume end at 4 GiB if the last one begins before. -/
theorem blocks_fit (hbs : m.blockSize ∣ 2 ^ 32)
    (h : ∀ b < blocks, b * m.blockSize < 2 ^ 32) : blocks * m.blockSize ≤ 2 ^ 32 := by
  cases blocks with
  | zero => omega
  | succ n =>
      obtain ⟨q, hq⟩ := hbs
      have hlast := h n (Nat.lt_succ_self n)
      rw [hq, Nat.mul_comm m.blockSize] at hlast ⊢
      exact Nat.mul_le_mul_right _ (Nat.lt_of_mul_lt_mul_right hlast)

theorem positionsExact_iff (d : σ) (hbs : m.blockSize < 0x40000000) (hdvd : m.blockSize ∣ 2 ^ 32)
    (hptrs : 0 < m.ptrsPerBlock) (his : 0 < m.inodeSize ∧ m.inodeSize < 0x40000000) :
    m.PositionsExact blocks ↔ m.PositionsFit blocks := by
  have hpos : 0 < m.blockSize := Nat.pos_of_dvd_of_pos hdvd (by decide)
  constructor
  · intro h
    refine ⟨blocks_fit hdvd fun b hb => ?_, fun ino hlt hino => ?_⟩
    · by_cases h0 : b = 0
      · rw [h0, Nat.zero_mul]
        decide
      · obtain ⟨code, he⟩ := getBlockReads_indirect d ⟨hpos, hbs⟩ hptrs h0
        have hexact := h.getBlock ⟨0, fun _ => b⟩ ⟨d, richHeap, fun _ => 0⟩ 12
        rw [he] at hexact
        have hb' : m.blockPosition b = b * m.blockSize := hexact _ (List.mem_singleton_self _) hb
        rw [← hb']
        exact Nat.mod_lt _ (by decide)
    · exact inodePosition_eq_iff.mp (h.readInode _ _ _ _ hlt hino (readInodeActions_read d his hino))
  · intro h
    exact {
      getBlock := fun _ _ _ => (getBlockReads_computed _ _ _).exact h.blocks
      readFileData := fun _ _ _ _ _ => readFileDataReads_computed.exact h.blocks
      loadDirectory := fun _ _ _ _ => loadDirectory_computed.exact h.blocks
      readInode := by
        intro v ino pos size hlt hino hread
        rcases mem_readInodeActions hread with he | he | he
        · exact nomatch he
        · cases he
          exact inodePosition_eq_iff.mpr (h.inodes ino hlt hino)
        · exact nomatch he }

/-! ## Mounted volumes -/

open Ext2SuperBlock

/-- Mounting, from the table of groups on. -/
theorem readGroups_mounted {m' : Ext2Mount σ} {sb : Ext2SuperBlock} {v' : Volume σ}
    {log : List Action} (h32 : sb.sLogBlockSize < 32)
    (h : (m.readGroups sb v log).1 = .mounted m' v') :
    sb.sLogBlockSize < 20 ∧ ∃ groups, m' = (m.withSuper sb).withGroups groups := by
  unfold readGroups at h
  split at h
  · exact nomatch h
  dsimp only at h
  split at h
  · exact nomatch h
  next hk =>
  refine ⟨(blockSize_eq h32 (Heap.kmalloc_bound hk)).1, ?_⟩
  generalize (m.withSuper sb).tableLoop (sb.tableSize + 1) _ = r at h
  split at h
  · exact nomatch h
  · obtain ⟨rfl, -⟩ := MountResult.mounted.inj h
    exact ⟨_, rfl⟩

/-- What a volume that has been mounted is. -/
theorem initializeMount_mounted {driver : BlockDriver σ} {deviceBlockSize : Nat}
    {super content : Buffer} {v' : Volume σ}
    (hd : Delivers driver deviceBlockSize v super content)
    (h : (initializeMount (some driver) deviceBlockSize v super).1 = .mounted m v') :
    (superBlockAt content).sLogBlockSize < 20 ∧
      ∃ groups,
        m = ((new driver deviceBlockSize).withSuper (superBlockAt content)).withGroups groups := by
  unfold initializeMount at h
  dsimp only at h
  unfold Delivers at hd
  generalize (new driver deviceBlockSize).deviceRead v 1024 super sizeofSuperBlock = r at hd h
  obtain ⟨code, super', v₁⟩ := r
  dsimp only at hd h
  split at h
  · exact nomatch h
  next hok =>
  rw [superBlockAt_congr (hd (not_not.mp hok))] at h
  split at h
  · exact nomatch h
  split at h
  · exact nomatch h
  next h32 =>
  split at h
  · exact nomatch h
  split at h
  · exact nomatch h
  · exact readGroups_mounted (Nat.lt_of_not_le h32) h

/-- **Positions are exact** for a volume that has been mounted, exactly if its
blocks and its inodes end before 4 GiB. -/
theorem positions_exact_iff {driver : BlockDriver σ} {deviceBlockSize : Nat}
    {super content : Buffer} {v' : Volume σ}
    (hd : Delivers driver deviceBlockSize v super content)
    (h : (initializeMount (some driver) deviceBlockSize v super).1 = .mounted m v') :
    m.PositionsExact (superBlockAt content).sBlocksCount ↔
      m.PositionsFit (superBlockAt content).sBlocksCount := by
  obtain ⟨hlog, groups, rfl⟩ := initializeMount_mounted hd h
  have hsizes : ∀ k < 20, 1024 * 2 ^ k % 2 ^ 32 < 0x40000000 ∧ 1024 * 2 ^ k % 2 ^ 32 ∣ 2 ^ 32 ∧
      0 < 1024 * 2 ^ k % 2 ^ 32 / 4 := by decide
  obtain ⟨hbs, hdvd, hptrs⟩ := hsizes _ hlog
  exact positionsExact_iff v'.device hbs hdvd hptrs (inodeSize_bound content)

/-- A superblock with 2^22 + 2 blocks of 1024 bytes, in one group. -/
def pastFourGiB : Buffer := fun i =>
  if i = 4 then 2 else if i = 6 then 0x40 else if i = 35 then 0x80 else if i = 40 then 8
  else if i = 56 then 0x53 else if i = 57 then 0xEF else 0

theorem pastFourGiB_mounted :
    ∃ m v, (initializeMount (some superDriver) 1024 (superVolume pastFourGiB) fun _ => 0).1 =
        .mounted m v ∧
      m.blockSize = 1024 ∧ m.ptrsPerBlock = 256 := by
  have hmagic : (superBlockAt pastFourGiB).sMagic = ext2SuperMagic := by decide
  obtain ⟨groups, v, h⟩ := superVolume_mounted hmagic (by decide) ⟨by decide, by decide, by decide⟩
  have hbs : (superBlockAt pastFourGiB).blockSize = 1024 := by decide
  exact ⟨_, v, h, hbs, congrArg (· / 4) hbs⟩

/-- It is mounted, and not all positions are exact. -/
theorem positions_exact_iff_pastFourGiB :
    ∃ m v, (initializeMount (some superDriver) 1024 (superVolume pastFourGiB) fun _ => 0).1 =
        .mounted m v ∧
      (m.PositionsExact (superBlockAt pastFourGiB).sBlocksCount ↔
        m.PositionsFit (superBlockAt pastFourGiB).sBlocksCount) := by
  obtain ⟨m, v, h, -⟩ := pastFourGiB_mounted
  exact ⟨m, v, h, positions_exact_iff (superVolume_delivers pastFourGiB) h⟩

/-- The last block is looked for at 1024. -/
theorem last_block_at_1024 :
    ∃ m v code, (initializeMount (some superDriver) 1024 (superVolume pastFourGiB) fun _ => 0).1 =
        .mounted m v ∧
      m.getBlockReads ⟨0, fun _ => 2 ^ 22 + 1⟩ ⟨v.device, richHeap, fun _ => 0⟩ 12 =
        [⟨2 ^ 22 + 1, 1024, code⟩] ∧
      ¬m.PositionsExact (superBlockAt pastFourGiB).sBlocksCount := by
  obtain ⟨m, v, h, hbs, hptrs⟩ := pastFourGiB_mounted
  obtain ⟨code, he⟩ := getBlockReads_indirect v.device (show 0 < m.blockSize ∧ _ by omega)
    (by omega) (show 2 ^ 22 + 1 ≠ 0 by decide)
  have hposition : m.blockPosition (2 ^ 22 + 1) = 1024 := by
    unfold blockPosition
    rw [hbs]
    decide
  have hcount : 2 ^ 22 + 1 < (superBlockAt pastFourGiB).sBlocksCount := by decide
  rw [hposition] at he
  refine ⟨m, v, code, h, he, fun hexact => ?_⟩
  have hread := hexact.getBlock ⟨0, fun _ => 2 ^ 22 + 1⟩ ⟨v.device, richHeap, fun _ => 0⟩ 12
  rw [he] at hread
  have hplace : 1024 = (2 ^ 22 + 1) * m.blockSize := hread _ (List.mem_singleton_self _) hcount
  omega

end Ext2Mount

end KmOS
