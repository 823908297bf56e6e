/-
# `KmOS.Ext2.EndOfFile` — reads that pass the end of a file

`read_file_data` cuts the request at the end of the file with a sum of 32 bits.
Where the sum does not wrap, no more is moved than the file has (`Within`).
Where it wraps and comes out small, nothing is cut, and only a block that is not
there ends the loop: it is stopped in time if there is one among those up to the
block with the end of the file, which is the condition that is exact
(`file_read_inside_iff`).

A block may be there for some device even if it is not for another: the entries
of the indirect block are read from the device.  So the result is about all
devices with which the inode can be read.
-/
import KmOS.Ext2.FileData

namespace KmOS

namespace Ext2Mount

variable {σ : Type} {m : Ext2Mount σ} {inode : Ext2Inode} {offset size n : Nat} {b : Buffer}
  {r : FileRead σ}

/-! ## Bounds -/

/-- The loop has moved, and counted, no more than `n` bytes. -/
structure Within (n : Nat) (b : Buffer) (r : FileRead σ) : Prop where
  counted : r.totalRead = r.moved
  moved : r.moved ≤ n
  kept : ∀ i, n ≤ i → r.buffer i = b i

/-- A turn that keeps to the bound. -/
theorem Within.turn (h : Within n b r) (hn : n < 2 ^ 32) {block : Buffer} {chunk : Nat}
    (hc : r.moved + chunk ≤ n) {v : Volume σ} {k : Nat} :
    Within n b { r with
      volume := v, blockBuffer := block
      buffer := memcpy r.buffer r.totalRead block r.blockOffset chunk
      size := r.size - chunk
      totalRead := (r.totalRead + chunk) % 2 ^ 32
      blockIndex := k
      blockOffset := 0
      moved := r.moved + chunk } := by
  have hcounted := h.counted
  refine ⟨?_, hc, fun i hi => ?_⟩
  · dsimp only
    rw [Nat.mod_eq_of_lt (by omega), hcounted]
  · dsimp only
    unfold memcpy
    rw [if_neg (by omega)]
    exact h.kept i hi

/-- What is left of the request keeps to the bound, or a missing block does. -/
def Bounded (m : Ext2Mount σ) (inode : Ext2Inode) (offset n : Nat) (r : FileRead σ) : Prop :=
  r.moved + r.size ≤ n ∨ ∃ J, (∀ v, (m.getBlock inode v J).1 = none) ∧ J * m.blockSize ≤ offset + n ∧
    r.blockIndex ≤ J ∧
    (r.size = 0 ∨ r.blockIndex * m.blockSize + r.blockOffset = offset + r.moved)

theorem readLoop_within (hbs : m.blockSize < 0x40000000) (hn : offset + n < 2 ^ 32) {fuel : Nat}
    (hw : Within n b r) (hb : Bounded m inode offset n r) (ho : r.blockOffset < m.blockSize) :
    Within n b (m.readLoop inode fuel r) := by
  induction fuel generalizing r with
  | zero => exact hw
  | succ fuel ih =>
      unfold readLoop
      by_cases h0 : r.size = 0
      · rw [if_pos h0]
        exact hw
      rw [if_neg h0]
      dsimp only
      split
      · exact ⟨hw.counted, hw.moved, hw.kept⟩
      next number hblock =>
      split
      · exact ⟨hw.counted, hw.moved, hw.kept⟩
      obtain ⟨hpos, hle, hend, hlast⟩ := chunk_bounds ho h0
      generalize BlockDriver.headChunk m.blockSize r.blockOffset r.size = chunk at *
      rw [intCount_eq (by omega)]
      rcases hb with hb | ⟨J, hnone, hJ, hindex, hplace⟩
      · exact ih (hw.turn (by omega) (by omega)) (Or.inl (by dsimp only; omega)) (by dsimp only; omega)
      · have hplace' := hplace.resolve_left h0
        have hne : r.blockIndex ≠ J := by
          rintro rfl
          rw [hnone] at hblock
          exact nomatch hblock
        -- the block that is missing lies behind this one
        have hmul : (r.blockIndex + 1) * m.blockSize ≤ J * m.blockSize :=
          Nat.mul_le_mul_right _ (by omega)
        rw [Nat.succ_mul] at hmul
        have hJlt : J ≤ J * m.blockSize := Nat.le_mul_of_pos_right _ (by omega)
        have hnext : (r.blockIndex + 1) % 2 ^ 32 = r.blockIndex + 1 := Nat.mod_eq_of_lt (by omega)
        rw [hnext]
        refine ih (hw.turn (by omega) (by omega)) (Or.inr ⟨J, hnone, hJ, ?_, ?_⟩) (by dsimp only; omega)
        · dsimp only
          omega
        · dsimp only
          rw [Nat.succ_mul]
          omega

/-- The inode has an entry for the block with the index `j`. -/
def HasEntry (ptrsPerBlock : Nat) (inode : Ext2Inode) (j : Nat) : Prop :=
  if j < 12 then inode.iBlock j ≠ 0 else j - 12 < ptrsPerBlock ∧ inode.iBlock 12 ≠ 0

/-- Without an entry there is no block. -/
theorem getBlock_none {j : Nat} (h : ¬HasEntry m.ptrsPerBlock inode j) (v : Volume σ) :
    (m.getBlock inode v j).1 = none := by
  unfold HasEntry at h
  unfold getBlock
  by_cases hj : j < 12
  · rw [if_pos hj] at h ⊢
    rw [if_pos (not_not.mp h)]
  · rw [if_neg hj] at h ⊢
    dsimp only
    by_cases hin : j - 12 < m.ptrsPerBlock
    · rw [if_pos hin, if_pos (not_not.mp fun h0 => h ⟨hin, h0⟩)]
    · rw [if_neg hin]

/-! ## A device on which nothing fails -/

section
variable {cap : Nat} {good : List Bool → Volume σ → Prop} {v : Volume σ} {j J : Nat}

/-- On a disk of ones every entry is a block. -/
theorem getBlock_ones (ha : m.Answers (fun _ => 1) cap good) (hcap : 2 ^ 33 ≤ cap)
    (hptrs : m.ptrsPerBlock = m.blockSize / 4) (he : HasEntry m.ptrsPerBlock inode j)
    (hv : good [] v) : ∃ number v', m.getBlock inode v j = (some number, v') ∧ good [] v' := by
  unfold HasEntry at he
  unfold getBlock
  by_cases hj : j < 12
  · rw [if_pos hj] at he
    exact ⟨inode.iBlock j, v, by rw [if_pos hj, if_neg he], hv⟩
  · rw [if_neg hj] at he
    obtain ⟨entries, heap, hk, hv'⟩ := ha.memory hv (Or.inl rfl)
    obtain ⟨h0, hlt⟩ := ha.blockSize_bound hv
    have hpos : inode.iBlock 12 * m.blockSize % 2 ^ 32 < 2 ^ 32 := Nat.mod_lt _ (by decide)
    obtain ⟨code, buffer', v', hread, hcode, hbytes, hgood⟩ :=
      ha.read entries hv' hpos h0 (by omega) (by omega)
    have hok : code = .ok := hcode.mpr rfl
    have hin := he.1
    have hload : Memory.load32 buffer' (4 * (j - 12)) ≠ 0 := by
      unfold Memory.load32
      rw [hbytes hok _ (by omega), hbytes hok _ (by omega), hbytes hok _ (by omega),
        hbytes hok _ (by omega)]
      decide
    refine ⟨Memory.load32 buffer' (4 * (j - 12)), v', ?_, hgood⟩
    rw [if_neg hj]
    dsimp only
    rw [if_pos he.1, if_neg he.2, hk]
    dsimp only
    rw [hread]
    dsimp only
    rw [if_neg (not_not.mpr hok), if_neg hload]

/-- Nothing that has been moved is taken back. -/
theorem le_readLoop_moved (inode : Ext2Inode) (fuel : Nat) (r : FileRead σ) :
    r.moved ≤ (m.readLoop inode fuel r).moved := by
  induction fuel generalizing r with
  | zero => exact Nat.le_refl _
  | succ fuel ih =>
      unfold readLoop
      split
      · exact Nat.le_refl _
      dsimp only
      split
      · exact Nat.le_refl _
      split
      · exact Nat.le_refl _
      · refine Nat.le_trans ?_ (ih _)
        exact Nat.le_add_right _ _

/-- There the loop goes on as long as there are entries. -/
theorem readLoop_passes (ha : m.Answers (fun _ => 1) cap good) (hcap : 2 ^ 33 ≤ cap)
    (hptrs : m.ptrsPerBlock = m.blockSize / 4) {fuel : Nat} (hfuel : r.size ≤ fuel)
    (hv : good [] r.volume) (he : ∀ j, r.blockIndex ≤ j → j ≤ J → HasEntry m.ptrsPerBlock inode j)
    (hJ : J + 1 < 2 ^ 32) (ho : r.blockOffset < m.blockSize)
    (hplace : r.size = 0 ∨ r.blockIndex * m.blockSize + r.blockOffset = offset + r.moved) :
    min (offset + r.moved + r.size) ((J + 1) * m.blockSize) ≤
      offset + (m.readLoop inode fuel r).moved := by
  induction fuel generalizing r with
  | zero =>
      rw [Nat.le_zero.mp hfuel]
      exact Nat.min_le_left _ _
  | succ fuel ih =>
      by_cases h0 : r.size = 0
      · have hstop : m.readLoop inode (fuel + 1) r = r := by
          unfold readLoop
          rw [if_pos h0]
        rw [hstop, h0]
        exact Nat.min_le_left _ _
      by_cases hpast : (J + 1) * m.blockSize ≤ offset + r.moved
      · have hmoved := le_readLoop_moved inode (fuel + 1) r (m := m)
        omega
      have hplace' := hplace.resolve_left h0
      have hbs := ha.blockSize_bound hv
      have hindex : r.blockIndex ≤ J := by
        by_contra hgt
        have := Nat.mul_le_mul_right m.blockSize (show J + 1 ≤ r.blockIndex by omega)
        omega
      obtain ⟨number, v₁, hblock, hv₁⟩ :=
        getBlock_ones ha hcap hptrs (he r.blockIndex (Nat.le_refl _) hindex) hv
      have hpos : number * m.blockSize % 2 ^ 32 < 2 ^ 32 := Nat.mod_lt _ (by decide)
      obtain ⟨code, block, v₂, hread, hcode, -, hv₂⟩ :=
        ha.read r.blockBuffer hv₁ hpos hbs.1 (by omega) (by omega)
      have hok : code = .ok := hcode.mpr rfl
      obtain ⟨hchunk, hle, hend, hlast⟩ := chunk_bounds ho h0
      unfold readLoop
      rw [if_neg h0, hblock]
      dsimp only
      rw [hread]
      dsimp only
      rw [if_neg (not_not.mpr hok)]
      generalize BlockDriver.headChunk m.blockSize r.blockOffset r.size = chunk at *
      have hnext : (r.blockIndex + 1) % 2 ^ 32 = r.blockIndex + 1 := Nat.mod_eq_of_lt (by omega)
      rw [intCount_eq (by omega), hnext]
      have hrest := ih (r := { r with
        volume := v₂, blockBuffer := block
        buffer := memcpy r.buffer r.totalRead block r.blockOffset chunk
        size := r.size - chunk
        totalRead := (r.totalRead + chunk) % 2 ^ 32
        blockIndex := r.blockIndex + 1
        blockOffset := 0
        moved := r.moved + chunk }) (by dsimp only; omega) hv₂
        (fun j hj hj' => he j (Nat.le_of_succ_le hj) hj') (by dsimp only; omega) ?_
      · refine Nat.le_trans (Nat.le_of_eq ?_) hrest
        dsimp only
        congr 1
        omega
      · dsimp only
        rw [Nat.succ_mul]
        omega

end

/-! ## The result -/

/-- What is returned, moved and stored stays before the end of the file. -/
def InsideFile (inode : Ext2Inode) (offset : Nat) (b : Buffer) (r : ReadResult) : Prop :=
  r.ret ≤ inode.iSize - offset ∧ r.moved ≤ inode.iSize - offset ∧
    ∃ b', r.buffer = some b' ∧ ∀ i, inode.iSize - offset ≤ i → b' i = b i

/-- The sum of offset and size wraps and comes out inside the file, and the inode
has an entry for every block from the offset on to the one with the end. -/
def Overruns (blockSize : Nat) (inode : Ext2Inode) (offset size : Nat) : Prop :=
  0 < blockSize ∧ blockSize < 0x40000000 ∧ offset < inode.iSize ∧ 2 ^ 32 ≤ offset + size ∧
    offset + size - 2 ^ 32 ≤ inode.iSize ∧
    ∀ j, offset / blockSize ≤ j → j ≤ inode.iSize / blockSize → HasEntry (blockSize / 4) inode j

theorem InsideFile.nothing : InsideFile inode offset b ⟨0, 0, some b⟩ :=
  ⟨Nat.zero_le _, Nat.zero_le _, b, rfl, fun _ _ => rfl⟩

/-- **Reading stays inside the file**, unless it overruns. -/
theorem readFileData_inside (hptrs : m.ptrsPerBlock = m.blockSize / 4) (hsize : inode.iSize < 2 ^ 32)
    (ho : offset < 2 ^ 32) (hs : size < 2 ^ 32) (hno : ¬Overruns m.blockSize inode offset size)
    {v v' : Volume σ} {res : ReadResult}
    (h : m.readFileData v inode offset (some b) size = some (res, v')) :
    InsideFile inode offset b res := by
  by_cases h0 : size = 0
  · unfold readFileData at h
    dsimp only at h
    rw [if_pos h0] at h
    cases h
    exact InsideFile.nothing
  by_cases hin : inode.iSize ≤ offset
  · unfold readFileData at h
    dsimp only at h
    rw [if_neg h0, if_pos hin] at h
    cases h
    exact InsideFile.nothing
  rcases hk : v.heap.kmalloc m.blockSize with ⟨_ | block, heap⟩
  · unfold readFileData at h
    dsimp only at h
    rw [if_neg h0, if_neg hin, hk] at h
    by_cases hbs : m.blockSize = 0
    · rw [if_pos hbs] at h
      exact nomatch h
    · rw [if_neg hbs] at h
      cases h
      exact InsideFile.nothing
  · obtain ⟨hpos, hlt⟩ := Heap.kmalloc_bound hk
    rw [readFileData_eq h0 hin hk] at h
    have hbounded : Bounded m inode offset (inode.iSize - offset)
        (m.freshRead { v with heap := heap } block b offset (clip inode offset size)) := by
      by_cases hclip : 0 + clip inode offset size ≤ inode.iSize - offset
      · exact Or.inl hclip
      · -- nothing is cut, so the sum has wrapped
        have hwrap : 2 ^ 32 ≤ offset + size ∧ offset + size - 2 ^ 32 ≤ inode.iSize := by
          unfold clip at hclip
          split at hclip <;> omega
        obtain ⟨J, hJ⟩ := not_forall.mp fun hall =>
          hno ⟨hpos, hlt, Nat.lt_of_not_le hin, hwrap.1, hwrap.2, hall⟩
        obtain ⟨hfrom, hto, hmissing⟩ : offset / m.blockSize ≤ J ∧
            J ≤ inode.iSize / m.blockSize ∧ ¬HasEntry (m.blockSize / 4) inode J := by
          simpa only [Classical.not_imp] using hJ
        refine Or.inr ⟨J, getBlock_none (hptrs ▸ hmissing), ?_, hfrom, Or.inr ?_⟩
        · have := (Nat.le_div_iff_mul_le hpos).mp hto
          omega
        · show offset / m.blockSize * m.blockSize + offset % m.blockSize = offset + 0
          rw [Nat.mul_comm]
          exact Nat.div_add_mod offset m.blockSize
    have hw : Within (inode.iSize - offset) b (m.readLoop inode (clip inode offset size) _) :=
      readLoop_within hlt (by omega) ⟨rfl, Nat.zero_le _, fun _ _ => rfl⟩ hbounded (Nat.mod_lt _ hpos)
    cases h
    exact ⟨hw.counted ▸ hw.moved, hw.moved, _, rfl, hw.kept⟩

/-- A disk of ones, large enough that no position that fits in 32 bits fails. -/
def onesMount (blockSize : Nat) : Ext2Mount Buffer :=
  { new (flatDisk 1024 (2 ^ 23)) 1024 with
    blockSize := blockSize
    ptrsPerBlock := blockSize / 4 }

def onesVolume : Volume Buffer := ⟨fun _ => 1, richHeap, fun _ => 0⟩

/-- There every read that overruns moves bytes that the file does not have. -/
theorem readFileData_overruns {blockSize : Nat} (hs : size < 2 ^ 32) (hsize : inode.iSize < 2 ^ 32)
    (h : Overruns blockSize inode offset size) (b : Buffer) :
    ∃ res v', (onesMount blockSize).readFileData onesVolume inode offset (some b) size =
      some (res, v') ∧ ¬InsideFile inode offset b res := by
  obtain ⟨hpos, hlt, hin, hwrap, hsmall, hentries⟩ := h
  have ha := answers_flat (m := onesMount blockSize) (flatDisk_flat 1024 (2 ^ 23))
    (show 2 ≤ 1024 by decide) (show 1024 < 0x40000000 by decide) ⟨hpos, hlt⟩
    (show 0 < 128 ∧ 128 < 0x40000000 by decide) fun _ => 1
  obtain ⟨block, heap, hk, hv'⟩ :=
    ha.memory (v := onesVolume) ⟨rfl, rfl, richHeap_rich⟩ (Or.inl rfl)
  have hclip : clip inode offset size = size := by
    unfold clip
    rw [if_neg]
    omega
  have h0 : size ≠ 0 := by omega
  refine ⟨_, _, readFileData_eq h0 (Nat.not_le.mpr hin) hk, fun hinside => ?_⟩
  have hdiv : offset / blockSize ≤ inode.iSize / blockSize := Nat.div_le_div_right (Nat.le_of_lt hin)
  -- the block with the end of the file is in reach of the block map
  have hlast : inode.iSize / blockSize + 1 < 2 ^ 32 := by
    have hentry := hentries _ hdiv (Nat.le_refl _)
    unfold HasEntry at hentry
    split at hentry <;> omega
  have hend : inode.iSize < (inode.iSize / blockSize + 1) * blockSize := by
    rw [Nat.succ_mul]
    exact Nat.lt_div_mul_add hpos
  have hcap : 2 ^ 33 ≤ 2 ^ 23 * 1024 := by decide
  have hplace : offset / blockSize * blockSize + offset % blockSize = offset + 0 := by
    rw [Nat.mul_comm]
    exact Nat.div_add_mod offset blockSize
  have hpasses := readLoop_passes ha hcap rfl
    (r := (onesMount blockSize).freshRead { onesVolume with heap := heap } block b offset size)
    (Nat.le_refl size) hv' hentries hlast (Nat.mod_lt _ hpos) (Or.inr hplace)
  have hmoved : ((onesMount blockSize).readLoop inode size
      ((onesMount blockSize).freshRead { onesVolume with heap := heap } block b offset size)).moved ≤
        inode.iSize - offset := by
    have := hinside.2.1
    rw [hclip] at this
    exact this
  have hsum : inode.iSize < min (offset + 0 + size) ((inode.iSize / blockSize + 1) * blockSize) := by
    omega
  have := Nat.lt_of_lt_of_le hsum hpasses
  omega

/-- **Where reading keeps to the file**: for every inode and request, on all
devices, exactly where it does not overrun. -/
theorem file_read_inside_iff (ib : Buffer) (blockSize : Nat) (offset size : UInt32) :
    (∀ (σ : Type) (m : Ext2Mount σ), m.blockSize = blockSize → m.ptrsPerBlock = blockSize / 4 →
      ∀ v b res v', m.readFileData v (inodeAt ib) offset.toNat (some b) size.toNat = some (res, v') →
        InsideFile (inodeAt ib) offset.toNat b res) ↔
      ¬Overruns blockSize (inodeAt ib) offset.toNat size.toNat := by
  have hsize : (inodeAt ib).iSize < 2 ^ 32 := Memory.load32_lt ib 4
  constructor
  · intro hinside h
    obtain ⟨res, v', he, hno⟩ := readFileData_overruns size.toNat_lt hsize h fun _ => 0
    exact hno (hinside _ _ rfl rfl _ _ _ _ he)
  · rintro hno σ m rfl hptrs v b res v' he
    exact readFileData_inside hptrs hsize offset.toNat_lt size.toNat_lt hno he

/-- A file of 100 bytes with one block, of 1024 bytes. -/
def shortInode : Buffer := fun i => if i = 4 then 100 else if i = 40 then 3 else 0

/-- Asked for all there is behind byte 50, a read brings the rest of the block. -/
theorem read_overruns_short_file :
    ∃ res v', (onesMount 1024).readFileData onesVolume (inodeAt shortInode) 50 (some fun _ => 0)
      0xFFFFFFFF = some (res, v') ∧ ¬InsideFile (inodeAt shortInode) 50 (fun _ => 0) res := by
  refine readFileData_overruns (by decide) (by decide) ?_ _
  refine ⟨by decide, by decide, by decide, by decide, by decide, fun j _ hj => ?_⟩
  obtain rfl : j = 0 := Nat.le_zero.mp hj
  show (inodeAt shortInode).iBlock 0 ≠ 0
  decide

end Ext2Mount

end KmOS
