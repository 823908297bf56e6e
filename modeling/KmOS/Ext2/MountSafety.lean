/-
# `KmOS.Ext2.MountSafety` — what mounting makes of a superblock

`initialize` checks the magic number and that there is a group, and computes
with the rest of the superblock as it is.  A superblock is `MountFits` if
nothing that follows from it goes wrong: the shift and the division have a
result, and where the volume is mounted the count of groups has not wrapped, the
inodes are as large as the structure that is copied out of them, and there are
inodes in a group.

## What a mount needs

The heap has no memory for no bytes, and none for a gigabyte.  So a volume is
mounted only if its blocks and its table of groups are in between (`Mountable`);
in particular, where the shift loses bits the mount fails.
-/
import Mathlib.Order.Bounds.Defs
import KmOS.Ext2.Device

namespace KmOS

/-- The operation has a result, and a copy copies what has been read. -/
def Action.Safe : Action → Prop
  | .shift count => count < 32
  | .divide divisor => divisor ≠ 0
  | .read _ _ => True
  | .copy count available => count ≤ available

theorem safe_append {log : List Action} {a : Action} (hlog : ∀ b ∈ log, b.Safe) (ha : a.Safe) :
    ∀ b ∈ log ++ [a], b.Safe := by
  intro b hb
  rcases List.mem_append.mp hb with hb | hb
  · exact hlog b hb
  · rw [List.mem_singleton.mp hb]
    exact ha

namespace Ext2SuperBlock

/-- The volume can be mounted, if the device can be read. -/
def Mountable (sb : Ext2SuperBlock) : Prop :=
  sb.sLogBlockSize < 20 ∧ 0 < sb.tableSize ∧ sb.tableSize < 0x40000000

/-- **What a superblock has to be like.** -/
def MountFits (sb : Ext2SuperBlock) : Prop :=
  sb.sMagic = ext2SuperMagic →
    sb.sLogBlockSize < 32 ∧ sb.sBlocksPerGroup ≠ 0 ∧
      (sb.Mountable → sb.sBlocksCount + sb.sBlocksPerGroup ≤ 2 ^ 32 ∧
        (sb.sInodeSize = 0 ∨ sizeofInode ≤ sb.sInodeSize) ∧ sb.sInodesPerGroup ≠ 0)

/-- The fields are `u32`. -/
theorem superBlockAt_bounds (content : Buffer) :
    (superBlockAt content).sBlocksCount < 2 ^ 32 ∧ (superBlockAt content).sBlocksPerGroup < 2 ^ 32 :=
  ⟨Memory.load32_lt _ _, Memory.load32_lt _ _⟩

/-- It is read from the first 1024 bytes. -/
theorem superBlockAt_congr {b b' : Buffer} (h : ∀ i < sizeofSuperBlock, b' i = b i) :
    superBlockAt b' = superBlockAt b := by
  have h32 : ∀ i, i + 4 ≤ sizeofSuperBlock → Memory.load32 b' i = Memory.load32 b i := by
    intro i hi
    exact Memory.load32_congr fun j _ hj => h j (by omega)
  have h16 : ∀ i, i + 2 ≤ sizeofSuperBlock → b'.load16 i = b.load16 i := by
    intro i hi
    unfold Buffer.load16
    rw [h i (by omega), h (i + 1) (by omega)]
  unfold superBlockAt
  rw [h32 4 (by decide), h32 24 (by decide), h32 32 (by decide), h32 40 (by decide),
    h16 56 (by decide), h16 88 (by decide)]

/-! ## The arithmetic -/

variable {sb : Ext2SuperBlock}

/-- A block size that there is memory for is the one that was meant. -/
theorem blockSize_eq (hlog : sb.sLogBlockSize < 32)
    (h : 0 < sb.blockSize ∧ sb.blockSize < 0x40000000) :
    sb.sLogBlockSize < 20 ∧ sb.blockSize = 1024 * 2 ^ sb.sLogBlockSize := by
  have hsmall : ∀ n < 32, 0 < 1024 * 2 ^ n % 2 ^ 32 ∧ 1024 * 2 ^ n % 2 ^ 32 < 0x40000000 →
      n < 20 ∧ 1024 * 2 ^ n % 2 ^ 32 = 1024 * 2 ^ n := by decide
  exact hsmall _ hlog h

theorem blockSize_bound (hlog : sb.sLogBlockSize < 20) :
    0 < sb.blockSize ∧ sb.blockSize < 0x40000000 := by
  have hall : ∀ n < 20, 0 < 1024 * 2 ^ n % 2 ^ 32 ∧ 1024 * 2 ^ n % 2 ^ 32 < 0x40000000 := by decide
  exact hall _ hlog

theorem inodeSize_bound (content : Buffer) :
    0 < (superBlockAt content).inodeSize ∧ (superBlockAt content).inodeSize < 0x40000000 := by
  have hlt : (superBlockAt content).sInodeSize < 2 ^ 16 := by
    show Buffer.load16 content 88 < 2 ^ 16
    have h0 := (content 88).toNat_lt
    have h1 := (content (88 + 1)).toNat_lt
    unfold Buffer.load16
    omega
  unfold inodeSize
  split <;> omega

/-- **The count of groups** is the ceiling exactly if the sum does not wrap. -/
theorem isLeast_groupCount_iff (hB : sb.sBlocksCount < 2 ^ 32) (hG : sb.sBlocksPerGroup < 2 ^ 32)
    (h0 : sb.sBlocksPerGroup ≠ 0) :
    IsLeast {n | sb.sBlocksCount ≤ n * sb.sBlocksPerGroup} sb.groupCount ↔
      sb.sBlocksCount + sb.sBlocksPerGroup ≤ 2 ^ 32 := by
  unfold groupCount
  generalize sb.sBlocksCount = B at *
  generalize sb.sBlocksPerGroup = G at *
  have hpos : 0 < G := Nat.pos_of_ne_zero h0
  constructor
  · rintro ⟨hle, -⟩
    by_contra hgt
    have hmod : (B + G - 1) % 2 ^ 32 = B + G - 1 - 2 ^ 32 := by omega
    have hmul := Nat.div_mul_le_self (B + G - 1 - 2 ^ 32) G
    have hle' : B ≤ (B + G - 1) % 2 ^ 32 / G * G := hle
    rw [hmod] at hle'
    omega
  · intro hle
    rw [Nat.mod_eq_of_lt (by omega)]
    constructor
    · show B ≤ (B + G - 1) / G * G
      have hmod := Nat.div_add_mod (B + G - 1) G
      have hlt := Nat.mod_lt (B + G - 1) hpos
      rw [Nat.mul_comm] at hmod
      omega
    · intro n hn
      have hn' : B ≤ n * G := hn
      refine Nat.le_of_lt_succ ((Nat.div_lt_iff_lt_mul hpos).mpr ?_)
      rw [Nat.succ_mul]
      omega

end Ext2SuperBlock

namespace Ext2Mount

open Ext2SuperBlock

variable {σ : Type} {m : Ext2Mount σ} {sb : Ext2SuperBlock} {v : Volume σ}

/-! ## The table of groups -/

/-- The loop adds reads and copies of what has been read. -/
theorem tableLoop_safe (fuel : Nat) {t : TableRead σ} (h : ∀ a ∈ t.log, a.Safe) :
    ∀ a ∈ (m.tableLoop fuel t).2.log, a.Safe := by
  induction fuel generalizing t with
  | zero => exact h
  | succ fuel ih =>
      unfold tableLoop
      split
      · exact h
      · dsimp only
        have hread := safe_append h (a := .read (t.block * m.blockSize % 2 ^ 32) m.blockSize) trivial
        split
        · exact hread
        · refine ih (safe_append hread ?_)
          show intCount _ ≤ m.blockSize
          unfold intCount
          split <;> split <;> omega

/-- On a device that can be read the loop comes to its end. -/
theorem tableLoop_ends {disk : Buffer} {cap : Nat} {good : List Bool → Volume σ → Prop}
    (ha : m.Answers disk cap good) (hcap : 2 ^ 33 ≤ cap) {fuel : Nat} {t : TableRead σ}
    (hfuel : t.remaining < fuel) (hv : good [] t.volume) : (m.tableLoop fuel t).1 = true := by
  induction fuel generalizing t with
  | zero => exact absurd hfuel (Nat.not_lt_zero _)
  | succ fuel ih =>
      unfold tableLoop
      by_cases h0 : t.remaining = 0
      · rw [if_pos h0]
      · have hbs := ha.blockSize_bound hv
        have hpos : t.block * m.blockSize % 2 ^ 32 < 2 ^ 32 := Nat.mod_lt _ (by decide)
        obtain ⟨code, temp, v', he, hcode, -, hv'⟩ :=
          ha.read t.temp hv hpos hbs.1 (by omega) (by omega)
        have hok : code = .ok := hcode.mpr rfl
        rw [if_neg h0]
        dsimp only
        rw [he]
        dsimp only
        rw [if_neg (not_not.mpr hok)]
        refine ih ?_ hv'
        dsimp only
        split <;> omega

/-! ## Mounting -/

/-- What is promised of a mount that succeeds. -/
structure Sound (m : Ext2Mount σ) (sb : Ext2SuperBlock) : Prop where
  blockSize : m.blockSize = 1024 * 2 ^ sb.sLogBlockSize
  groupCount : IsLeast {n | sb.sBlocksCount ≤ n * sb.sBlocksPerGroup} m.groupCount
  inodeSize : sizeofInode ≤ m.inodeSize
  readInode : ∀ v ino, ∀ a ∈ m.readInodeActions v ino, a.Safe

/-- What is promised of mounting. -/
def MountSafe (sb : Ext2SuperBlock) (r : MountResult σ × List Action) : Prop :=
  (∀ a ∈ r.2, a.Safe) ∧ ∀ m v, r.1 = .mounted m v → m.Sound sb

/-- `read_inode` divides by `s_inodes_per_group`, reads at one position and copies
one structure. -/
theorem mem_readInodeActions {ino : Nat} {a : Action} (h : a ∈ m.readInodeActions v ino) :
    a = .divide m.inodesPerGroup ∨ a = .read (m.inodePosition ino) m.inodeSize ∨
      a = .copy sizeofInode m.inodeSize := by
  have hdivide : a ∈ [Action.divide m.inodesPerGroup] → a = .divide m.inodesPerGroup :=
    List.mem_singleton.mp
  unfold readInodeActions at h
  split at h
  · exact absurd h List.not_mem_nil
  split at h
  · exact Or.inl (hdivide h)
  split at h
  · exact Or.inl (hdivide h)
  split at h
  · exact Or.inl (hdivide h)
  · dsimp only at h
    rcases List.mem_append.mp h with h | h
    · rcases List.mem_cons.mp h with h | h
      · exact Or.inl h
      · exact Or.inr (Or.inl (List.mem_singleton.mp h))
    · split at h
      · exact absurd h List.not_mem_nil
      · exact Or.inr (Or.inr (List.mem_singleton.mp h))

theorem readInodeActions_safe (hipg : m.inodesPerGroup ≠ 0) (his : sizeofInode ≤ m.inodeSize)
    (v : Volume σ) (ino : Nat) : ∀ a ∈ m.readInodeActions v ino, a.Safe := by
  intro a ha
  rcases mem_readInodeActions ha with rfl | rfl | rfl
  · exact hipg
  · trivial
  · exact his

/-- Mounting, from the table of groups on. -/
theorem readGroups_safe {log : List Action} (hlog : ∀ a ∈ log, a.Safe)
    (h32 : sb.sLogBlockSize < 32) (hB : sb.sBlocksCount < 2 ^ 32) (hG : sb.sBlocksPerGroup < 2 ^ 32)
    (h0 : sb.sBlocksPerGroup ≠ 0)
    (hfits : sb.Mountable → sb.sBlocksCount + sb.sBlocksPerGroup ≤ 2 ^ 32 ∧
      (sb.sInodeSize = 0 ∨ sizeofInode ≤ sb.sInodeSize) ∧ sb.sInodesPerGroup ≠ 0) :
    MountSafe sb (m.readGroups sb v log) := by
  unfold readGroups
  split
  · exact ⟨hlog, nofun⟩
  · next groups heap hk =>
      dsimp only
      split
      · exact ⟨hlog, nofun⟩
      · next temp heap' hk' =>
          obtain ⟨hlog20, hbs⟩ := blockSize_eq h32 (Heap.kmalloc_bound hk')
          obtain ⟨hsum, hsize, hipg⟩ := hfits ⟨hlog20, Heap.kmalloc_bound hk⟩
          have hsafe := tableLoop_safe (m := m.withSuper sb) (sb.tableSize + 1)
            (t := { volume := { v with heap := heap' }, groups := groups, temp := temp,
                    remaining := sb.tableSize, dest := 0,
                    block := if (m.withSuper sb).blockSize = 1024 then 2 else 1, log := log }) hlog
          generalize (m.withSuper sb).tableLoop (sb.tableSize + 1) _ = r at hsafe ⊢
          obtain ⟨ok, t⟩ := r
          dsimp only at hsafe ⊢
          split
          · exact ⟨hsafe, nofun⟩
          · refine ⟨hsafe, fun m' v' he => ?_⟩
            obtain ⟨rfl, -⟩ := MountResult.mounted.inj he
            have his : sizeofInode ≤ sb.inodeSize := by
              unfold Ext2SuperBlock.inodeSize
              rcases hsize with h | h
              · rw [if_neg (not_not.mpr h)]
                exact Nat.le_refl _
              · split
                · exact h
                · exact Nat.le_refl _
            exact ⟨hbs, (isLeast_groupCount_iff hB hG h0).mpr hsum, his,
              readInodeActions_safe hipg his⟩

/-- If the superblock can be read, its content is `content`. -/
def Delivers (driver : BlockDriver σ) (deviceBlockSize : Nat) (v : Volume σ) (super content : Buffer) :
    Prop :=
  ((new driver deviceBlockSize).deviceRead v 1024 super sizeofSuperBlock).1 = .ok →
    ∀ i < sizeofSuperBlock,
      ((new driver deviceBlockSize).deviceRead v 1024 super sizeofSuperBlock).2.1 i = content i

/-- Mounting, once the superblock has been read. -/
theorem initializeMount_safe {driver : BlockDriver σ} {deviceBlockSize : Nat} {super content : Buffer}
    (hd : Delivers driver deviceBlockSize v super content) (hfits : (superBlockAt content).MountFits) :
    MountSafe (superBlockAt content) (initializeMount (some driver) deviceBlockSize v super) := by
  have hread : ∀ a ∈ [Action.read 1024 sizeofSuperBlock], a.Safe := by
    intro a ha
    rw [List.mem_singleton.mp ha]
    trivial
  unfold initializeMount
  dsimp only
  unfold Delivers at hd
  generalize (new driver deviceBlockSize).deviceRead v 1024 super sizeofSuperBlock = r at hd ⊢
  obtain ⟨code, super', v'⟩ := r
  dsimp only at hd ⊢
  split
  · exact ⟨hread, nofun⟩
  next hok =>
  rw [superBlockAt_congr (hd (not_not.mp hok))]
  split
  · exact ⟨hread, nofun⟩
  next hmagic =>
  obtain ⟨h32, h0, hrest⟩ := hfits (not_not.mp hmagic)
  obtain ⟨hB, hG⟩ := superBlockAt_bounds content
  have hshift := safe_append hread (a := .shift (superBlockAt content).sLogBlockSize) h32
  have hdivide := safe_append hshift (a := .divide (superBlockAt content).sBlocksPerGroup) h0
  rw [if_neg (Nat.not_le.mpr h32), if_neg h0]
  split
  · exact ⟨hdivide, nofun⟩
  · exact readGroups_safe hdivide h32 hB hG h0 hrest

end Ext2Mount

/-! ## A disk for every superblock -/

/-- A disk with the superblock `content`. -/
def superDisk (content : Buffer) : Buffer := fun a => content (a - 1024)

namespace Ext2Mount

open Ext2SuperBlock

/-- The volume of that disk, in blocks of 1024 bytes, more than can be addressed. -/
def superVolume (content : Buffer) : Volume Buffer where
  device := superDisk content
  heap := richHeap
  stack := fun _ => 0

abbrev superDriver : BlockDriver Buffer := flatDisk 1024 (2 ^ 23)

theorem superVolume_read (content : Buffer) :
    ∃ super' v', (new superDriver 1024).deviceRead (superVolume content) 1024 (fun _ => 0)
        sizeofSuperBlock = (.ok, super', v') ∧ (∀ i < sizeofSuperBlock, super' i = content i) ∧
      v'.device = superDisk content ∧ v'.heap.Rich := by
  obtain ⟨code, super', v', he, hcode, hbytes, hkeep, hr⟩ :=
    deviceRead_flat (m := new superDriver 1024) (v := superVolume content)
      (flatDisk_flat 1024 (2 ^ 23)) (by decide) (by decide) richHeap_rich (fun _ => 0)
      (show 1024 < 2 ^ 32 by decide) (show 0 < sizeofSuperBlock by decide) (by decide)
  have hok : code = .ok := hcode.mpr (by decide)
  subst hok
  refine ⟨super', v', he, fun i hi => ?_, hkeep, hr⟩
  rw [hbytes rfl i, if_pos hi]
  show content (1024 + i - 1024) = content i
  rw [Nat.add_sub_cancel_left]

theorem superVolume_delivers (content : Buffer) :
    Delivers superDriver 1024 (superVolume content) (fun _ => 0) content := by
  obtain ⟨super', v', he, hbytes, -⟩ := superVolume_read content
  intro _
  rw [he]
  exact hbytes

/-- What mounting that disk does with a superblock that has the magic number. -/
theorem superVolume_mount {content : Buffer}
    (hmagic : (superBlockAt content).sMagic = ext2SuperMagic) :
    ∃ v : Volume Buffer, v.device = superDisk content ∧ v.heap.Rich ∧
      initializeMount (some superDriver) 1024 (superVolume content) (fun _ => 0) =
        let sb := superBlockAt content
        let log := [.read 1024 sizeofSuperBlock, .shift sb.sLogBlockSize]
        if 32 ≤ sb.sLogBlockSize then (.stopped, log)
        else
          let log := log ++ [.divide sb.sBlocksPerGroup]
          if sb.sBlocksPerGroup = 0 then (.stopped, log)
          else if sb.groupCount = 0 then (.failed v, log)
          else (new superDriver 1024).readGroups sb v log := by
  obtain ⟨super', v, he, hbytes, hdev, hr⟩ := superVolume_read content
  refine ⟨v, hdev, hr, ?_⟩
  unfold initializeMount
  dsimp only
  rw [he]
  dsimp only
  rw [if_neg (not_not.mpr rfl), superBlockAt_congr hbytes, if_neg (not_not.mpr hmagic)]
  rfl

/-- A superblock that can be mounted is, from that disk. -/
theorem superVolume_mounted {content : Buffer}
    (hmagic : (superBlockAt content).sMagic = ext2SuperMagic)
    (h0 : (superBlockAt content).sBlocksPerGroup ≠ 0) (hm : (superBlockAt content).Mountable) :
    ∃ m v, (initializeMount (some superDriver) 1024 (superVolume content) fun _ => 0).1 =
      .mounted (withGroups (withSuper (new superDriver 1024) (superBlockAt content)) m) v := by
  obtain ⟨v, hdev, hr, he⟩ := superVolume_mount hmagic
  obtain ⟨hlog, htable⟩ := hm
  have hgroups : (superBlockAt content).groupCount ≠ 0 := by
    intro hz
    have := htable.1
    unfold tableSize at this
    rw [hz] at this
    exact absurd this (Nat.lt_irrefl 0)
  have hbs := blockSize_bound hlog
  obtain ⟨groups, heap, hk, hr'⟩ := hr.kmalloc htable.1 htable.2
  obtain ⟨temp, heap', hk', hr''⟩ := hr'.kmalloc hbs.1 hbs.2
  have hanswers := answers_flat (m := (new superDriver 1024).withSuper (superBlockAt content))
    (flatDisk_flat 1024 (2 ^ 23)) (show 2 ≤ 1024 by decide) (show 1024 < 0x40000000 by decide) hbs
    (inodeSize_bound content) (superDisk content)
  rw [he]
  dsimp only
  rw [if_neg (Nat.not_le.mpr (Nat.lt_trans hlog (by decide))), if_neg h0, if_neg hgroups]
  unfold readGroups
  rw [hk]
  dsimp only
  have hbs' : ((new superDriver 1024).withSuper (superBlockAt content)).blockSize =
      (superBlockAt content).blockSize := rfl
  rw [hbs', hk']
  dsimp only
  have hends := tableLoop_ends hanswers (show 2 ^ 33 ≤ 2 ^ 23 * 1024 by decide)
    (t := { volume := { v with heap := heap' }, groups := groups, temp := temp,
            remaining := (superBlockAt content).tableSize, dest := 0,
            block := if (superBlockAt content).blockSize = 1024 then 2 else 1,
            log := [.read 1024 sizeofSuperBlock, .shift (superBlockAt content).sLogBlockSize] ++
              [.divide (superBlockAt content).sBlocksPerGroup] })
    (Nat.lt_succ_self _) ⟨rfl, hdev, hr''⟩
  generalize tableLoop _ _ _ = r at hends ⊢
  obtain ⟨ok, t⟩ := r
  obtain rfl : ok = true := hends
  exact ⟨t.groups, t.volume, rfl⟩

end Ext2Mount

/-! ## The result -/

open Ext2Mount

/-- **Mounting is safe for a superblock, whatever the driver, the heap and the
rest of the disk, exactly if the superblock fits.** -/
theorem mount_safe_iff (content : Buffer) :
    (∀ (σ : Type) (driver : BlockDriver σ) (deviceBlockSize : Nat) (v : Volume σ) (super : Buffer),
        Delivers driver deviceBlockSize v super content →
        MountSafe (superBlockAt content) (initializeMount (some driver) deviceBlockSize v super)) ↔
      (superBlockAt content).MountFits := by
  constructor
  · intro h hmagic
    obtain ⟨hlog, hsound⟩ := h _ _ _ _ _ (superVolume_delivers content)
    obtain ⟨v, -, -, he⟩ := superVolume_mount hmagic
    have h32 : (superBlockAt content).sLogBlockSize < 32 := by
      by_contra hge
      refine hge (hlog (.shift (superBlockAt content).sLogBlockSize) ?_)
      rw [he]
      dsimp only
      rw [if_pos (Nat.le_of_not_lt hge)]
      exact List.mem_cons_of_mem _ List.mem_cons_self
    have h0 : (superBlockAt content).sBlocksPerGroup ≠ 0 := by
      intro hz
      refine hlog (.divide (superBlockAt content).sBlocksPerGroup) ?_ hz
      rw [he]
      dsimp only
      rw [if_neg (Nat.not_le.mpr h32), if_pos hz]
      exact List.mem_append_right _ List.mem_cons_self
    refine ⟨h32, h0, fun hm => ?_⟩
    obtain ⟨groups, v', hmounted⟩ := superVolume_mounted hmagic h0 hm
    have hs := hsound _ _ hmounted
    obtain ⟨hB, hG⟩ := Ext2SuperBlock.superBlockAt_bounds content
    refine ⟨(Ext2SuperBlock.isLeast_groupCount_iff hB hG h0).mp hs.groupCount, ?_, ?_⟩
    · have his : sizeofInode ≤ (superBlockAt content).inodeSize := hs.inodeSize
      unfold Ext2SuperBlock.inodeSize at his
      split at his
      · exact Or.inr his
      · next hz => exact Or.inl (not_not.mp hz)
    · intro hz
      -- the first inode is looked for in a group of no inodes
      have hsafe := hs.readInode v 1 (.divide (superBlockAt content).sInodesPerGroup)
      have hmem : .divide (superBlockAt content).sInodesPerGroup ∈
          readInodeActions (withGroups (withSuper (new superDriver 1024) (superBlockAt content))
            groups) v 1 := by
        unfold readInodeActions
        have hz' : (withGroups (withSuper (new superDriver 1024) (superBlockAt content))
            groups).inodesPerGroup = 0 := hz
        rw [if_neg (by decide), if_pos hz', hz', hz]
        exact List.mem_singleton_self _
      exact hsafe hmem hz
  · intro hfits σ driver deviceBlockSize v super hd
    exact initializeMount_safe hd hfits

/-- A superblock with the magic number and nothing else. -/
def magicOnly : Buffer := fun i => if i = 56 then 0x53 else if i = 57 then 0xEF else 0

/-- **A division by zero**: there are no blocks in a group. -/
theorem magicOnly_divides_by_zero :
    Delivers superDriver 1024 (superVolume magicOnly) (fun _ => 0) magicOnly ∧
      .divide 0 ∈ (initializeMount (some superDriver) 1024 (superVolume magicOnly) fun _ => 0).2 ∧
      ¬MountSafe (superBlockAt magicOnly)
        (initializeMount (some superDriver) 1024 (superVolume magicOnly) fun _ => 0) := by
  have hmagic : (superBlockAt magicOnly).sMagic = ext2SuperMagic := by decide
  obtain ⟨v, -, -, he⟩ := superVolume_mount hmagic
  have hmem : .divide 0 ∈
      (initializeMount (some superDriver) 1024 (superVolume magicOnly) fun _ => 0).2 := by
    rw [he]
    dsimp only
    rw [if_neg (by decide), if_pos (by decide)]
    decide
  exact ⟨superVolume_delivers magicOnly, hmem, fun h => h.1 _ hmem rfl⟩

end KmOS
