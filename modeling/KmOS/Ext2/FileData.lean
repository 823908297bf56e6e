/-
# `KmOS.Ext2.FileData` — the bytes that reading a file brings

The blocks of a file lie where its inode and, from the twelfth on, its indirect
block say (`blockNumber`).  On a healthy device `read_file_data` moves what the
concatenation of the blocks holds at the range it is asked for, as far as the
file goes (`file_read_slice`).
-/
import KmOS.Lib.Concat
import KmOS.Ext2.Device
import KmOS.Fs.Offset

namespace KmOS

namespace Ext2Mount

variable {σ : Type} (m : Ext2Mount σ)

/-! ## Blocks -/

/-- The number of the block with the index `j`. -/
def blockNumber (disk : Buffer) (inode : Ext2Inode) (j : Nat) : Nat :=
  if j < 12 then inode.iBlock j
  else Memory.load32 disk (inode.iBlock 12 * m.blockSize + 4 * (j - 12))

/-- There is a block with the index `j`, and it can be read. -/
structure Mapped (disk : Buffer) (cap : Nat) (inode : Ext2Inode) (j : Nat) : Prop where
  index : j < 12 + m.ptrsPerBlock
  indirect : 12 ≤ j → inode.iBlock 12 ≠ 0 ∧ (inode.iBlock 12 + 1) * m.blockSize ≤ cap
  number : m.blockNumber disk inode j ≠ 0
  below : (m.blockNumber disk inode j + 1) * m.blockSize ≤ cap

/-- The byte of a file at the position `p`. -/
def fileByte (disk : Buffer) (inode : Ext2Inode) (p : Nat) : UInt8 :=
  disk (m.blockNumber disk inode (p / m.blockSize) * m.blockSize + p % m.blockSize)

variable {m} {disk : Buffer} {cap : Nat} {good : List Bool → Volume σ → Prop} {as : List Bool}
  {v : Volume σ} {inode : Ext2Inode} {j : Nat}

/-- A block is read from where it lies. -/
theorem Answers.readBlock (ha : m.Answers disk cap good) (hcap : cap ≤ 2 ^ 32) {b : Nat}
    (hb : (b + 1) * m.blockSize ≤ cap) (buffer : Buffer) (hv : good as v) :
    ∃ code buffer' v',
      m.deviceRead v (b * m.blockSize % 2 ^ 32) buffer m.blockSize = (code, buffer', v') ∧
      (code = .ok ↔ as.headD true = true) ∧
      (code = .ok → ∀ i < m.blockSize, buffer' i = disk (b * m.blockSize + i)) ∧
      good as.tail v' := by
  obtain ⟨h0, hlt⟩ := ha.blockSize_bound hv
  rw [Nat.succ_mul] at hb
  rw [Nat.mod_eq_of_lt (by omega)]
  exact ha.read buffer hv (by omega) h0 (by omega) hb

/-- **`get_block`** finds a block that is there, unless the indirect block cannot be
read. -/
theorem Answers.getBlock (ha : m.Answers disk cap good) (hcap : cap ≤ 2 ^ 32)
    (hptrs : m.ptrsPerBlock = m.blockSize / 4) (hm : m.Mapped disk cap inode j) (hv : good as v) :
    ∃ v', m.getBlock inode v j =
        (if j < 12 ∨ as.headD true = true then some (m.blockNumber disk inode j) else none, v') ∧
      good (if j < 12 then as else as.tail) v' := by
  have hnumber := hm.number
  unfold Ext2Mount.getBlock blockNumber at *
  by_cases hj : j < 12
  · refine ⟨v, ?_, ?_⟩
    · rw [if_pos hj, if_pos (Or.inl hj), if_pos hj] at *
      rw [if_neg hnumber]
    · rw [if_pos hj]
      exact hv
  · obtain ⟨hind, hbelow⟩ := hm.indirect (Nat.le_of_not_lt hj)
    have hin : j - 12 < m.ptrsPerBlock := by
      have := hm.index
      omega
    obtain ⟨entries, heap, hk, hv'⟩ := ha.memory hv (Or.inl rfl)
    obtain ⟨code, buffer', v', he, hcode, hbytes, hgood⟩ := ha.readBlock hcap hbelow entries hv'
    refine ⟨v', ?_, ?_⟩
    · rw [if_neg hj] at hnumber ⊢
      rw [if_neg hj]
      dsimp only
      rw [if_pos hin, if_neg hind, hk]
      dsimp only
      rw [he]
      dsimp only
      by_cases hhead : as.headD true = true
      · have hok : code = .ok := hcode.mpr hhead
        rw [if_neg (not_not.mpr hok), if_pos (Or.inr hhead)]
        have hload : Memory.load32 buffer' (4 * (j - 12)) =
            Memory.load32 disk (inode.iBlock 12 * m.blockSize + 4 * (j - 12)) := by
          have hi : 4 * (j - 12) + 4 ≤ m.blockSize := by omega
          unfold Memory.load32
          rw [hbytes hok _ (by omega), hbytes hok _ (by omega), hbytes hok _ (by omega),
            hbytes hok _ (by omega)]
          rfl
        rw [hload, if_neg hnumber]
      · have hno : code ≠ .ok := fun hok => hhead (hcode.mp hok)
        rw [if_pos hno, if_neg (not_or.mpr ⟨hj, hhead⟩)]
    · rw [if_neg hj]
      exact hgood

theorem Answers.getBlock_healthy (ha : m.Answers disk cap good) (hcap : cap ≤ 2 ^ 32)
    (hptrs : m.ptrsPerBlock = m.blockSize / 4) (hm : m.Mapped disk cap inode j) (hv : good [] v) :
    ∃ v', m.getBlock inode v j = (some (m.blockNumber disk inode j), v') ∧ good [] v' := by
  obtain ⟨v', he, hv'⟩ := ha.getBlock hcap hptrs hm hv
  rw [if_pos (Or.inr List.headD_nil)] at he
  refine ⟨v', he, ?_⟩
  split at hv'
  · exact hv'
  · exact hv'

/-! ## The loop on a healthy device -/

/-- The variables of the loop while it moves the file from `offset` on into a
buffer that held `b₀`: where the next byte lies, and what has been moved. -/
structure Reading (m : Ext2Mount σ) (disk : Buffer) (good : List Bool → Volume σ → Prop)
    (inode : Ext2Inode) (offset : Nat) (b₀ : Buffer) (r : FileRead σ) : Prop where
  healthy : good [] r.volume
  place : r.size = 0 ∨ r.blockIndex * m.blockSize + r.blockOffset = offset + r.totalRead
  inBlock : r.blockOffset < m.blockSize
  inFile : offset + r.totalRead + r.size ≤ inode.iSize
  filled : ∀ i, r.buffer i = if i < r.totalRead then m.fileByte disk inode (offset + i) else b₀ i

variable {offset : Nat} {b₀ : Buffer} {r : FileRead σ}

/-- What a turn moves. -/
theorem fileByte_block {o i : Nat} (hi : o + i < m.blockSize) :
    m.fileByte disk inode (j * m.blockSize + o + i) =
      disk (m.blockNumber disk inode j * m.blockSize + (o + i)) := by
  have hpos : 0 < m.blockSize := Nat.lt_of_le_of_lt (Nat.zero_le _) hi
  unfold fileByte
  rw [Nat.add_assoc, Nat.mul_comm j, Nat.mul_add_div hpos, Nat.div_eq_of_lt hi, Nat.mul_add_mod,
    Nat.mod_eq_of_lt hi, Nat.add_zero]

theorem chunk_bounds {o size : Nat} (ho : o < m.blockSize) (h0 : size ≠ 0) :
    let chunk := BlockDriver.headChunk m.blockSize o size
    0 < chunk ∧ chunk ≤ size ∧ o + chunk ≤ m.blockSize ∧ (chunk = size ∨ o + chunk = m.blockSize) := by
  rcases headChunk_cases m.blockSize o size with ⟨he, hle⟩ | ⟨he, hle⟩
  · intro chunk
    have hc : chunk = size := he
    omega
  · intro chunk
    have hc : chunk = m.blockSize - o := he
    omega

/-- **The loop** moves what is left of the request. -/
theorem readLoop_reads (ha : m.Answers disk cap good) (hcap : cap ≤ 2 ^ 32)
    (hptrs : m.ptrsPerBlock = m.blockSize / 4) (hsize : inode.iSize < 2 ^ 32)
    (hmapped : ∀ j, j * m.blockSize < inode.iSize → m.Mapped disk cap inode j) {fuel : Nat}
    (hr : Reading m disk good inode offset b₀ r) (hfuel : r.size ≤ fuel) :
    (m.readLoop inode fuel r).totalRead = r.totalRead + r.size ∧
      ∀ i, (m.readLoop inode fuel r).buffer i =
        if i < r.totalRead + r.size then m.fileByte disk inode (offset + i) else b₀ i := by
  induction fuel generalizing r with
  | zero =>
      have h0 : r.size = 0 := Nat.le_zero.mp hfuel
      rw [h0]
      exact ⟨rfl, hr.filled⟩
  | succ fuel ih =>
      unfold readLoop
      by_cases h0 : r.size = 0
      · rw [if_pos h0, h0]
        exact ⟨rfl, hr.filled⟩
      · rw [if_neg h0]
        have hplace := hr.place.resolve_left h0
        have hin := hr.inFile
        have hm := hmapped r.blockIndex (by omega)
        obtain ⟨v₁, hblock, hv₁⟩ := ha.getBlock_healthy hcap hptrs hm hr.healthy
        obtain ⟨code, block, v₂, hread, hcode, hbytes, hv₂⟩ :=
          ha.readBlock hcap hm.below r.blockBuffer hv₁
        have hok : code = .ok := hcode.mpr rfl
        obtain ⟨hpos, hle, hend, hlast⟩ := chunk_bounds hr.inBlock h0
        have hbs := (ha.blockSize_bound hr.healthy).2
        rw [hblock]
        dsimp only
        rw [hread]
        dsimp only
        rw [if_neg (not_not.mpr hok)]
        generalize BlockDriver.headChunk m.blockSize r.blockOffset r.size = chunk at *
        have hindex : r.blockIndex ≤ r.blockIndex * m.blockSize :=
          Nat.le_mul_of_pos_right _ (by omega)
        have hsum : (r.totalRead + chunk) % 2 ^ 32 = r.totalRead + chunk :=
          Nat.mod_eq_of_lt (by omega)
        have hnext : (r.blockIndex + 1) % 2 ^ 32 = r.blockIndex + 1 := Nat.mod_eq_of_lt (by omega)
        rw [intCount_eq (by omega), hsum, hnext]
        have hrest := ih (r := { r with
          volume := v₂, blockBuffer := block
          buffer := memcpy r.buffer r.totalRead block r.blockOffset chunk
          size := r.size - chunk
          totalRead := r.totalRead + chunk
          blockIndex := r.blockIndex + 1
          blockOffset := 0
          moved := r.moved + chunk }) ⟨hv₂, ?_, by dsimp only; omega, by dsimp only; omega, ?_⟩
          (by dsimp only; omega)
        · dsimp only at hrest
          rw [Nat.add_assoc, Nat.add_sub_cancel' hle] at hrest
          exact hrest
        · dsimp only
          rw [Nat.succ_mul]
          omega
        · intro i
          dsimp only
          unfold memcpy
          by_cases hi : r.totalRead ≤ i ∧ i < r.totalRead + chunk
          · have hplace' : offset + i =
                r.blockIndex * m.blockSize + r.blockOffset + (i - r.totalRead) := by omega
            rw [if_pos hi, if_pos hi.2, hbytes hok _ (by omega), hplace', fileByte_block (by omega)]
          · rw [if_neg hi, hr.filled]
            by_cases hlt : i < r.totalRead
            · rw [if_pos hlt, if_pos (by omega)]
            · rw [if_neg hlt, if_neg (by omega)]

/-! ## Reading a range -/

variable {size : Nat}

/-- The bytes of the blocks of a file, in index order. -/
def fileBlocks (m : Ext2Mount σ) (disk : Buffer) (inode : Ext2Inode) : List UInt8 :=
  joinBlocks m.blockSize (fun j i => disk (m.blockNumber disk inode j * m.blockSize + i))
    ((inode.iSize + m.blockSize - 1) / m.blockSize)

/-- A range of the file, byte by byte. -/
theorem slice_fileBlocks (hbs : 0 < m.blockSize) {n : Nat} (hn : offset + n ≤ inode.iSize) :
    ((m.fileBlocks disk inode).drop offset).take n =
      (List.range n).map fun i => m.fileByte disk inode (offset + i) := by
  unfold fileBlocks
  refine slice_joinBlocks ?_
  have hdiv := Nat.div_add_mod (inode.iSize + m.blockSize - 1) m.blockSize
  have hmod := Nat.mod_lt (inode.iSize + m.blockSize - 1) hbs
  rw [Nat.mul_comm] at hdiv
  omega

/-- The variables of `read_file_data` before its loop. -/
def freshRead (m : Ext2Mount σ) (v : Volume σ) (block b : Buffer) (offset size : Nat) :
    FileRead σ where
  volume := v
  blockBuffer := block
  buffer := b
  size := size
  totalRead := 0
  blockIndex := offset / m.blockSize
  blockOffset := offset % m.blockSize
  moved := 0

/-- `read_file_data` as far as its loop. -/
theorem readFileData_eq {block b : Buffer} {heap : Heap} (h0 : size ≠ 0)
    (hin : ¬inode.iSize ≤ offset) (hk : v.heap.kmalloc m.blockSize = (some block, heap)) :
    m.readFileData v inode offset (some b) size =
      let n := clip inode offset size
      let r := m.readLoop inode n (m.freshRead { v with heap := heap } block b offset n)
      some (⟨r.totalRead, r.moved, some r.buffer⟩, r.volume) := by
  have hbs : m.blockSize ≠ 0 := Nat.ne_of_gt (Heap.kmalloc_bound hk).1
  unfold readFileData
  dsimp only
  rw [if_neg h0, if_neg hin, if_neg hbs, hk]
  rfl

theorem clip_eq_min (h : offset + size < 2 ^ 32) (hin : offset < inode.iSize) :
    clip inode offset size = min size (inode.iSize - offset) := by
  unfold clip
  rw [Nat.mod_eq_of_lt h]
  split <;> omega

/-- **Reading brings the slice**: on a healthy device, from a file whose blocks can
all be read, as many bytes come as the file has in the range, and they are those
of the concatenation of its blocks. -/
theorem file_read_slice (ha : m.Answers disk cap good) (hcap : cap ≤ 2 ^ 32)
    (hptrs : m.ptrsPerBlock = m.blockSize / 4) (hv : good [] v) (hsize : inode.iSize < 2 ^ 32)
    (hmapped : ∀ j, j * m.blockSize < inode.iSize → m.Mapped disk cap inode j) (b : Buffer)
    (hrange : offset + size < 2 ^ 32) :
    ∃ r v' b', m.readFileData v inode offset (some b) size = some (r, v') ∧
      r.ret = min size (inode.iSize - offset) ∧ r.buffer = some b' ∧
      (List.range r.ret).map b' = ((m.fileBlocks disk inode).drop offset).take r.ret ∧
      ∀ i, r.ret ≤ i → b' i = b i := by
  obtain ⟨hbs, -⟩ := ha.blockSize_bound hv
  have nothing : m.readFileData v inode offset (some b) size = some (⟨0, 0, some b⟩, v) →
      min size (inode.iSize - offset) = 0 → ∃ r v' b',
        m.readFileData v inode offset (some b) size = some (r, v') ∧
        r.ret = min size (inode.iSize - offset) ∧ r.buffer = some b' ∧
        (List.range r.ret).map b' = ((m.fileBlocks disk inode).drop offset).take r.ret ∧
        ∀ i, r.ret ≤ i → b' i = b i :=
    fun he h0 => ⟨_, _, b, he, h0.symm, rfl, by rw [List.take_zero]; rfl, fun _ _ => rfl⟩
  by_cases h0 : size = 0
  · refine nothing ?_ (by rw [h0]; exact Nat.zero_min _)
    unfold readFileData
    dsimp only
    rw [if_pos h0]
  by_cases hin : inode.iSize ≤ offset
  · refine nothing ?_ (by rw [Nat.sub_eq_zero_of_le hin]; exact Nat.min_zero _)
    unfold readFileData
    dsimp only
    rw [if_neg h0, if_pos hin]
  obtain ⟨block, heap, hk, hv'⟩ := ha.memory hv (Or.inl rfl)
  have hclip : clip inode offset size = min size (inode.iSize - offset) :=
    clip_eq_min hrange (Nat.lt_of_not_le hin)
  have hstart : Reading m disk good inode offset b
      (m.freshRead { v with heap := heap } block b offset (clip inode offset size)) := by
    refine ⟨hv', Or.inr ?_, Nat.mod_lt _ hbs, ?_, fun i => (if_neg (Nat.not_lt_zero i)).symm⟩
    · show offset / m.blockSize * m.blockSize + offset % m.blockSize = offset + 0
      rw [Nat.mul_comm]
      exact Nat.div_add_mod offset m.blockSize
    · show offset + 0 + clip inode offset size ≤ inode.iSize
      rw [hclip]
      omega
  obtain ⟨htotal, hbytes⟩ := readLoop_reads ha hcap hptrs hsize hmapped hstart
    (Nat.le_refl (clip inode offset size))
  have hn : (m.freshRead { v with heap := heap } block b offset (clip inode offset size)).totalRead +
      (m.freshRead { v with heap := heap } block b offset (clip inode offset size)).size =
        min size (inode.iSize - offset) := (Nat.zero_add _).trans hclip
  rw [hn] at htotal hbytes
  refine ⟨_, _, _, readFileData_eq h0 hin hk, htotal, rfl, ?_, ?_⟩
  · show (List.range (m.readLoop inode _ _).totalRead).map (m.readLoop inode _ _).buffer = _
    have hn' : offset + min size (inode.iSize - offset) ≤ inode.iSize := by omega
    rw [htotal, slice_fileBlocks hbs hn']
    refine List.map_congr_left fun i hi => ?_
    rw [hbytes i, if_pos (List.mem_range.mp hi)]
  · intro i hi
    have hi' : min size (inode.iSize - offset) ≤ i := htotal ▸ hi
    exact (hbytes i).trans (if_neg (Nat.not_lt.mpr hi'))

/-- A volume of blocks of 1024 bytes, on a disk of sixteen of them. -/
def smallMount : Ext2Mount Buffer :=
  { new (flatDisk 1024 16) 1024 with inodesPerGroup := 8, groupCount := 1 }

/-- A file of 1500 bytes in the blocks 5 and 3. -/
def twoBlocks : Ext2Inode where
  iSize := 1500
  iBlock := fun j => if j = 0 then 5 else if j = 1 then 3 else 0

/-- A read across the two blocks. -/
theorem file_read_slice_two_blocks :
    ∃ r v' b',
      smallMount.readFileData ⟨fun a => UInt8.ofNat (a / 1024), richHeap, fun _ => 0⟩ twoBlocks
        1000 (some fun _ => 9) 100 = some (r, v') ∧
      r.ret = 100 ∧ r.buffer = some b' ∧
      (List.range r.ret).map b' =
        ((smallMount.fileBlocks (fun a => UInt8.ofNat (a / 1024)) twoBlocks).drop 1000).take r.ret ∧
      ∀ i, r.ret ≤ i → b' i = 9 := by
  have ha := answers_flat (m := smallMount) (flatDisk_flat 1024 16) (by decide) (by decide)
    (by decide) (by decide) fun a => UInt8.ofNat (a / 1024)
  have hmapped : ∀ j, j * smallMount.blockSize < twoBlocks.iSize →
      smallMount.Mapped (fun a => UInt8.ofNat (a / 1024)) (16 * 1024) twoBlocks j := by
    intro j hj
    have hj' : j < 2 := by
      have : j * 1024 < 1500 := hj
      omega
    have hboth : ∀ j < 2, j < 12 ∧ twoBlocks.iBlock j ≠ 0 ∧
        (twoBlocks.iBlock j + 1) * 1024 ≤ 16 * 1024 := by decide
    obtain ⟨h12, hnumber, hbelow⟩ := hboth j hj'
    have hb : smallMount.blockNumber (fun a => UInt8.ofNat (a / 1024)) twoBlocks j =
        twoBlocks.iBlock j := if_pos h12
    exact ⟨Nat.lt_add_right _ h12, fun h => absurd h12 (Nat.not_lt.mpr h), hb ▸ hnumber,
      by rw [hb]; exact hbelow⟩
  have hrange : 1000 + 100 < 2 ^ 32 := by decide
  obtain ⟨r, v', b', he, hret, hbuffer, hslice, hkept⟩ :=
    file_read_slice (v := ⟨fun a => UInt8.ofNat (a / 1024), richHeap, fun _ => 0⟩) ha (by decide) rfl
      ⟨rfl, rfl, richHeap_rich⟩ (by decide) hmapped (fun _ => 9) hrange
  exact ⟨r, v', b', he, hret.trans (by decide), hbuffer, hslice, hkept⟩

end Ext2Mount

end KmOS
