/-
# `KmOS.Ext2.RegularFile` — reading regular files

What the file of an inode holds are the bytes of its blocks, as far as its size
(`contents`).  On a healthy device `Ext2RegularFile::read` brings the range that it is
asked for, as far as the file goes, and leaves the device as it is (`regularFile_read`).
-/
import KmOS.Ext2.Loading

namespace KmOS

namespace Ext2Mount

variable {σ : Type} {m : Ext2Mount σ} {disk : Buffer} {cap : Nat}
  {good : List Bool → Volume σ → Prop} {v : Volume σ} {inode : Ext2Inode} {ino : Nat}

/-- What the file of an inode holds. -/
def contents (m : Ext2Mount σ) (disk : Buffer) (ino : Nat) : List UInt8 :=
  (m.fileBlocks disk (m.diskInode disk ino)).take (m.diskInode disk ino).iSize

/-- The file is on the device. -/
structure FileOn (m : Ext2Mount σ) (disk : Buffer) (cap ino : Nat) : Prop where
  inode : m.InodeOn cap ino
  mapped : ∀ j, j * m.blockSize < (m.diskInode disk ino).iSize →
    m.Mapped disk cap (m.diskInode disk ino) j

/-- The loop leaves a healthy device healthy. -/
theorem readLoop_healthy (hw : m.Works disk cap good)
    (hmapped : ∀ j, j * m.blockSize < inode.iSize → m.Mapped disk cap inode j) {fuel : Nat}
    {r : FileRead σ} (hr : good [] r.volume) (ho : r.blockOffset < m.blockSize)
    (hplace : r.size = 0 ∨
      r.blockIndex * m.blockSize + r.blockOffset + r.size ≤ inode.iSize)
    (hsize : inode.iSize < 2 ^ 32) :
    good [] (m.readLoop inode fuel r).volume := by
  induction fuel generalizing r with
  | zero => exact hr
  | succ fuel ih =>
      unfold readLoop
      by_cases h0 : r.size = 0
      · rw [if_pos h0]
        exact hr
      · have hin := hplace.resolve_left h0
        have hm := hmapped r.blockIndex (by omega)
        obtain ⟨v₁, hblock, hv₁⟩ :=
          hw.answers.getBlock_healthy hw.cap hw.ptrsPerBlock hm hr
        obtain ⟨code, block, v₂, hread, hcode, -, hv₂⟩ :=
          hw.answers.readBlock hw.cap hm.below r.blockBuffer hv₁
        have hok : code = .ok := hcode.mpr rfl
        obtain ⟨hpos, hle, hend, hlast⟩ := chunk_bounds ho h0
        have hbs := (hw.answers.blockSize_bound hr).1
        have hindex : r.blockIndex ≤ r.blockIndex * m.blockSize :=
          Nat.le_mul_of_pos_right _ hbs
        rw [if_neg h0, hblock]
        dsimp only
        rw [hread]
        dsimp only
        rw [if_neg (not_not.mpr hok)]
        generalize BlockDriver.headChunk m.blockSize r.blockOffset r.size = chunk at *
        refine ih hv₂ hbs ?_
        dsimp only
        rw [Nat.mod_eq_of_lt (by omega), Nat.succ_mul]
        omega

theorem fileBlocks_congr {inode' : Ext2Inode} (h : inode'.Same inode) :
    m.fileBlocks disk inode' = m.fileBlocks disk inode := by
  unfold fileBlocks
  rw [h.iSize]
  refine congrArg (fun b => joinBlocks m.blockSize b _) ?_
  funext j i
  rw [blockNumber_congr h]

theorem fileBlocks_length : (m.fileBlocks disk inode).length =
    (inode.iSize + m.blockSize - 1) / m.blockSize * m.blockSize := by
  unfold fileBlocks
  rw [joinBlocks_eq, List.length_map, List.length_range]

theorem contents_length (hbs : 0 < m.blockSize) :
    (m.contents disk ino).length = (m.diskInode disk ino).iSize := by
  unfold contents
  rw [List.length_take, fileBlocks_length]
  have hdiv := Nat.div_add_mod ((m.diskInode disk ino).iSize + m.blockSize - 1) m.blockSize
  have hmod := Nat.mod_lt ((m.diskInode disk ino).iSize + m.blockSize - 1) hbs
  rw [Nat.mul_comm] at hdiv
  omega

theorem contents_length_lt (disk : Buffer) (ino : Nat) (hbs : 0 < m.blockSize) :
    (m.contents disk ino).length < 2 ^ 32 := by
  rw [contents_length hbs]
  exact Memory.load32_lt _ _

/-- A range of the blocks that is in the file. -/
theorem slice_contents {offset n : Nat} (h : offset + n ≤ (m.diskInode disk ino).iSize) :
    ((m.contents disk ino).drop offset).take n =
      ((m.fileBlocks disk (m.diskInode disk ino)).drop offset).take n := by
  unfold contents
  rw [List.drop_take, List.take_take, Nat.min_eq_left]
  omega

/-- `read_file_data` on a healthy device. -/
theorem readFileData_healthy (hw : m.Works disk cap good) (hv : good [] v)
    (hmapped : ∀ j, j * m.blockSize < inode.iSize → m.Mapped disk cap inode j)
    (hsize : inode.iSize < 2 ^ 32) (b : Buffer) {pos size : Nat} (hrange : pos + size < 2 ^ 32) :
    ∃ r v' b', m.readFileData v inode pos (some b) size = some (r, v') ∧ good [] v' ∧
      r.buffer = some b' ∧ r.ret = min size (inode.iSize - pos) ∧
      ∀ i, b' i = if i < r.ret then m.fileByte disk inode (pos + i) else b i := by
  have nothing : m.readFileData v inode pos (some b) size = some (⟨0, 0, some b⟩, v) →
      min size (inode.iSize - pos) = 0 → ∃ r v' b',
        m.readFileData v inode pos (some b) size = some (r, v') ∧ good [] v' ∧
        r.buffer = some b' ∧ r.ret = min size (inode.iSize - pos) ∧
        ∀ i, b' i = if i < r.ret then m.fileByte disk inode (pos + i) else b i :=
    fun he h0 => ⟨_, _, b, he, hv, rfl, h0.symm, fun i => (if_neg (Nat.not_lt_zero i)).symm⟩
  by_cases h0 : size = 0
  · refine nothing ?_ (by rw [h0]; exact Nat.zero_min _)
    unfold readFileData
    dsimp only
    rw [if_pos h0]
  by_cases hin : inode.iSize ≤ pos
  · refine nothing ?_ (by rw [Nat.sub_eq_zero_of_le hin]; exact Nat.min_zero _)
    unfold readFileData
    dsimp only
    rw [if_neg h0, if_pos hin]
  obtain ⟨hbs, -⟩ := hw.answers.blockSize_bound hv
  obtain ⟨block, heap, hk, hv'⟩ := hw.answers.memory hv (Or.inl rfl)
  have hclip : clip inode pos size = min size (inode.iSize - pos) :=
    clip_eq_min hrange (Nat.lt_of_not_le hin)
  have hplace : pos / m.blockSize * m.blockSize + pos % m.blockSize = pos := by
    rw [Nat.mul_comm]
    exact Nat.div_add_mod pos m.blockSize
  let r₀ := m.freshRead { v with heap := heap } block b pos (clip inode pos size)
  have hend : pos + clip inode pos size ≤ inode.iSize := by
    rw [hclip]
    omega
  have hstart : Reading m disk good inode pos b r₀ :=
    ⟨hv', Or.inr hplace, Nat.mod_lt _ hbs, hend, fun i => (if_neg (Nat.not_lt_zero i)).symm⟩
  obtain ⟨htotal, hbytes⟩ := readLoop_reads hw.answers hw.cap hw.ptrsPerBlock hsize hmapped hstart
    (Nat.le_refl (clip inode pos size))
  have hhealthy : good [] (m.readLoop inode (clip inode pos size) r₀).volume := by
    refine readLoop_healthy hw hmapped hv' (Nat.mod_lt _ hbs) (Or.inr ?_) hsize
    show pos / m.blockSize * m.blockSize + pos % m.blockSize + clip inode pos size ≤ inode.iSize
    rw [hplace]
    exact hend
  have hn : r₀.totalRead + r₀.size = clip inode pos size := Nat.zero_add _
  rw [hn] at htotal hbytes
  refine ⟨_, _, _, readFileData_eq h0 hin hk, hhealthy, rfl, htotal.trans hclip, fun i => ?_⟩
  refine (hbytes i).trans ?_
  dsimp only
  rw [htotal]

/-- **A regular file is read**, and the device stays as it is. -/
theorem regularFile_read (hw : m.Works disk cap good) (hf : m.FileOn disk cap ino)
    (hv : good [] v) (b : Buffer) (pos size : Nat) (hrange : pos + size < 2 ^ 32) :
    ∃ r v' b', Ext2RegularFile.read ⟨some m, ino, v⟩ pos (some b) size = some (r, v') ∧
      good [] v' ∧ r.buffer = some b' ∧ r.ret = min size ((m.contents disk ino).length - pos) ∧
      (List.range r.ret).map b' = ((m.contents disk ino).drop pos).take size ∧
      ∀ i, r.ret ≤ i → b' i = b i := by
  obtain ⟨hbs, -⟩ := hw.answers.blockSize_bound hv
  obtain ⟨r₀, v₀, hino, hv₀, hres⟩ := hw.answers.readInode hw.cap hw.inodeSize hf.inode hv
  rw [if_pos List.headD_nil] at hres
  obtain ⟨inode, rfl, hsame⟩ := hres
  have hsize : inode.iSize = (m.diskInode disk ino).iSize := hsame.iSize
  have hmapped : ∀ j, j * m.blockSize < inode.iSize → m.Mapped disk cap inode j := fun j hj =>
    (hf.mapped j (hsize ▸ hj)).congr hsame
  have hlt : inode.iSize < 2 ^ 32 := hsize ▸ Memory.load32_lt _ _
  obtain ⟨r, v', b', hread, hv', hbuffer, hret, hbytes⟩ :=
    readFileData_healthy hw hv₀ hmapped hlt b hrange
  have hlen : (m.contents disk ino).length = inode.iSize := (contents_length hbs).trans hsize.symm
  refine ⟨r, v', b', ?_, hv', hbuffer, hret.trans (by rw [hlen]), ?_, fun i hi => ?_⟩
  · unfold Ext2RegularFile.read
    dsimp only
    rw [hino]
    exact hread
  · by_cases hin : pos ≤ inode.iSize
    · have hend : pos + r.ret ≤ inode.iSize := by omega
      have hcut : ((m.contents disk ino).drop pos).take size =
          ((m.contents disk ino).drop pos).take r.ret := by
        rw [List.take_eq_take_iff, List.length_drop, hlen]
        omega
      rw [hcut, slice_contents (hsize ▸ hend), ← fileBlocks_congr hsame, slice_fileBlocks hbs hend]
      refine List.map_congr_left fun i hi => ?_
      rw [hbytes i, if_pos (List.mem_range.mp hi)]
    · have hnone : r.ret = 0 := by omega
      rw [hnone, List.drop_eq_nil_of_le (by omega), List.take_nil]
      rfl
  · rw [hbytes i, if_neg (Nat.not_lt.mpr hi)]

/-- Without a buffer nothing is read. -/
theorem regularFile_read_null (hw : m.Works disk cap good) (hf : m.FileOn disk cap ino)
    (hv : good [] v) (pos size : Nat) :
    ∃ v', Ext2RegularFile.read ⟨some m, ino, v⟩ pos none size = some (⟨0, 0, none⟩, v') ∧
      good [] v' := by
  obtain ⟨r₀, v₀, hino, hv₀, hres⟩ := hw.answers.readInode hw.cap hw.inodeSize hf.inode hv
  rw [if_pos List.headD_nil] at hres
  obtain ⟨inode, rfl, -⟩ := hres
  refine ⟨v₀, ?_, hv₀⟩
  unfold Ext2RegularFile.read
  dsimp only
  rw [hino]
  rfl

/-! ## A small volume -/

/-- A volume of blocks of 1024 bytes. -/
def oneGroup (driver : BlockDriver σ) (deviceBlockSize : Nat) : Ext2Mount σ :=
  { new driver deviceBlockSize with inodesPerGroup := 8, groupCount := 1 }

/-- A disk with a file of 1500 bytes in the blocks 5 and 3. -/
def fileDisk : Buffer := fun a =>
  if a = 4 then 220 else if a = 5 then 5 else if a = 40 then 5 else if a = 44 then 3
  else UInt8.ofNat (a / 1024)

theorem fileDisk_size (driver : BlockDriver σ) (deviceBlockSize : Nat) :
    ((oneGroup driver deviceBlockSize).contents fileDisk 1).length = 1500 := by
  have hfirst : (oneGroup driver deviceBlockSize).inodePlace 1 = 0 := by
    simp [inodePlace, oneGroup, new]
  have hbs : 0 < (oneGroup driver deviceBlockSize).blockSize := Nat.zero_lt_succ _
  have hsize : (inodeAt (fileDisk.drop 0)).iSize = 1500 := by decide
  rw [contents_length hbs, ← hsize]
  exact congrArg (fun a => (inodeAt (fileDisk.drop a)).iSize) hfirst

theorem fileDisk_on (driver : BlockDriver σ) (deviceBlockSize : Nat) :
    (oneGroup driver deviceBlockSize).FileOn fileDisk (16 * 1024) 1 := by
  have hfirst : (oneGroup driver deviceBlockSize).inodePlace 1 = 0 := by
    simp [inodePlace, oneGroup, new]
  have hino : (oneGroup driver deviceBlockSize).diskInode fileDisk 1 =
      inodeAt (fileDisk.drop 0) := congrArg (fun a => inodeAt (fileDisk.drop a)) hfirst
  have hsize : (inodeAt (fileDisk.drop 0)).iSize = 1500 := by decide
  have hlisted : (1 : Nat) ≠ 0 ∧ (8 : Nat) ≠ 0 ∧ (1 - 1) / 8 < 1 := by decide
  have hplace : 0 * 1024 + (1 - 1) % 8 * 128 + 128 ≤ 16 * 1024 := by decide
  have hbs : (oneGroup driver deviceBlockSize).blockSize = 1024 := rfl
  refine ⟨⟨hlisted, hplace⟩, fun j hj => ?_⟩
  rw [hino, hsize, hbs] at hj
  have hj' : j < 2 := by omega
  have hboth : ∀ j < 2, j < 12 ∧ (inodeAt (fileDisk.drop 0)).iBlock j ≠ 0 ∧
      ((inodeAt (fileDisk.drop 0)).iBlock j + 1) * 1024 ≤ 16 * 1024 := by decide
  obtain ⟨h12, hnumber, hbelow⟩ := hboth j hj'
  have hb : (oneGroup driver deviceBlockSize).blockNumber fileDisk (inodeAt (fileDisk.drop 0)) j =
      (inodeAt (fileDisk.drop 0)).iBlock j := if_pos h12
  rw [hino]
  exact ⟨Nat.lt_add_right _ h12, fun h => absurd h12 (Nat.not_lt.mpr h), hb ▸ hnumber,
    by rw [hb]; exact hbelow⟩

end Ext2Mount

end KmOS
