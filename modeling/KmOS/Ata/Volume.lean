/-
# `KmOS.Ata.Volume` — an ext2 volume on an ATA drive

What a mount may expect of its surroundings (`Ext2Mount.Answers`), it gets from the driver
of an ATA drive that has been found: the layers above it need not know that the bytes come
through ports.
-/
import KmOS.Ata.FlatDisk
import KmOS.Ext2.RegularFile

namespace KmOS

namespace ATADevice

variable {d : ATADevice} {n : Nat} {other : AtaDisk} {c : AtaChannel}

/-- `BlockDevice::read`, for a range that is not empty. -/
theorem read_attached (hd : d.PortsApart) (hpresent : d.identify.present = true)
    (h : d.Attached n other c) (hn : n ≤ 2 ^ 28) (stack b : Buffer) {pos size : Nat}
    (hpos : pos < 2 ^ 32) (h0 : 0 < size) (hsize : size < 2 ^ 32) :
    ∃ code b' c', d.blockDriver.read ataSectorSize none stack c pos (some b) size =
        (code, some b', c') ∧
      (code = .ok ↔ pos + size ≤ n * ataSectorSize) ∧
      (code = .ok → ∀ i, b' i = if i < size then d.bytes c (pos + i) else b i) ∧
      d.bytes c' = d.bytes c ∧ d.Attached n other c' := by
  have hroom : pos / ataSectorSize + size / ataSectorSize + 2 ≤ 2 ^ 28 := by
    unfold ataSectorSize
    omega
  have hflat : FlatDevice (d.shortDriver hd n other) ataSectorSize n fun c => d.bytes c.1 :=
    shortDriver_flat hd hpresent hn
  obtain ⟨code, b', s', hread, hcode, hfill, hkeep⟩ :=
    read_flat hflat (by decide) hpos h0 hsize stack stack b ⟨c, h⟩
  have hover := BlockDriver.read_over (shortDriver_follows hd n other)
    (show 0 < ataSectorSize by decide) hroom none stack ⟨c, h⟩ (some b)
  rw [BlockDriver.read_stack (d.shortDriver hd n other) stack, hread] at hover
  exact ⟨code, b', s'.1, hover, hcode, hfill, hkeep, s'.2⟩

end ATADevice

namespace Ext2Mount

variable {d : ATADevice} {n : Nat} {other : AtaDisk} {m : Ext2Mount AtaChannel}

/-- The volume lies on the drive of `d`, which holds `disk`. -/
structure OnDrive (d : ATADevice) (n : Nat) (other : AtaDisk) (disk : Buffer)
    (v : Volume AtaChannel) : Prop where
  attached : d.Attached n other v.device
  bytes : d.bytes v.device = disk
  rich : v.heap.Rich

/-- A mount of the device `d`. -/
structure MountOf (m : Ext2Mount AtaChannel) (d : ATADevice) : Prop where
  driver : m.driver = d.blockDriver
  deviceBlockSize : m.deviceBlockSize = ataSectorSize
  blockSize : 0 < m.blockSize ∧ m.blockSize < 0x40000000
  ptrsPerBlock : m.ptrsPerBlock = m.blockSize / 4
  inodeSize : sizeofInode ≤ m.inodeSize ∧ m.inodeSize < 0x40000000
  inodesPerGroup : m.inodesPerGroup ≠ 0

/-- **The drive is healthy**, as far as 32 bits go. -/
theorem MountOf.answers (hm : m.MountOf d) (hd : d.PortsApart)
    (hpresent : d.identify.present = true) (hn : n ≤ 2 ^ 28) (disk : Buffer) :
    m.Answers disk (min (n * ataSectorSize) (2 ^ 32))
      (fun as v => as = [] ∧ OnDrive d n other disk v) where
  memory := by
    rintro as v size ⟨rfl, hv⟩ hsize
    have his : 0 < m.inodeSize := Nat.lt_of_lt_of_le (by decide) hm.inodeSize.1
    obtain ⟨h0, hlt⟩ : 0 < size ∧ size < 0x40000000 := by
      rcases hsize with rfl | rfl
      · exact hm.blockSize
      · exact ⟨his, hm.inodeSize.2⟩
    obtain ⟨block, heap, hk, hr⟩ := hv.rich.kmalloc h0 hlt
    exact ⟨block, heap, hk, rfl, hv.attached, hv.bytes, hr⟩
  read := by
    rintro as v pos size buffer ⟨rfl, hv⟩ hpos h0 hsize hcap
    obtain ⟨code, b', c', hread, hcode, hfill, hkeep, hattached⟩ :=
      ATADevice.read_attached hd hpresent hv.attached hn v.stack buffer hpos h0 hsize
    have hok : code = .ok := hcode.mpr (Nat.le_trans hcap (Nat.min_le_left _ _))
    refine ⟨code, b', { v with device := c' }, ?_, iff_of_true hok rfl, fun _ i hi => ?_, rfl,
      hattached, hkeep.trans hv.bytes, hv.rich⟩
    · unfold deviceRead
      rw [hm.driver, hm.deviceBlockSize, if_neg (by decide)]
      dsimp only
      rw [hread]
      rfl
    · rw [hfill hok i, if_pos hi, hv.bytes]

theorem MountOf.works (hm : m.MountOf d) (hd : d.PortsApart)
    (hpresent : d.identify.present = true) (hn : n ≤ 2 ^ 28) (other : AtaDisk) (disk : Buffer) :
    m.Works disk (min (n * ataSectorSize) (2 ^ 32))
      (fun as v => as = [] ∧ OnDrive d n other disk v) where
  answers := hm.answers hd hpresent hn disk
  cap := Nat.min_le_right _ _
  ptrsPerBlock := hm.ptrsPerBlock
  inodeSize := hm.inodeSize.1
  inodesPerGroup := hm.inodesPerGroup

end Ext2Mount

end KmOS
