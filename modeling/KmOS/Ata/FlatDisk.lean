/-
# `KmOS.Ata.FlatDisk` — files on an ATA drive

`BlockDevice` makes byte ranges of blocks, `ATADevice` makes commands of blocks, and the
drive answers them in its own time.  Together they are an array of bytes: after
`initialize`, any requests, one after another, get the answers that an array of the size
of the drive would give (`ata_disk_is_flat`), and the other drive of the channel is left
alone.

The driver can name 2 ^ 28 sectors and takes the rest of a number for the same sector.
`BlockDevice` never notices: its positions and sizes have 32 bits.  So the driver is
followed as far as that (`BlockDriver.Follows`).
-/
import KmOS.Ata.Drive
import KmOS.Block.FlatArray

namespace KmOS

open PortProgram

/-! ## Drivers that follow one another -/

namespace BlockDriver

variable {σ τ : Type} {drv : BlockDriver σ} {drv' : BlockDriver τ} {f : σ → τ}
  {blockSize offset bound : Nat} {p : Request σ}

/-- Below `bound`, `drv'` does what `drv` does. -/
structure Follows (drv : BlockDriver σ) (drv' : BlockDriver τ) (f : σ → τ) (bound : Nat) : Prop where
  read : ∀ s lba b, lba < bound → drv'.readBlocks (f s) lba 1 b =
    ((drv.readBlocks s lba 1 b).1, (drv.readBlocks s lba 1 b).2.1, f (drv.readBlocks s lba 1 b).2.2)
  write : ∀ s lba b, lba < bound → drv'.writeBlocks (f s) lba 1 b =
    ((drv.writeBlocks s lba 1 b).1, f (drv.writeBlocks s lba 1 b).2)

/-- The request before the other driver. -/
def carry (f : σ → τ) (r : ReturnCode × Request σ) : ReturnCode × Request τ :=
  (r.1, { r.2 with device := f r.2.device })

/-- So many blocks are left to a request. -/
def Within (blockSize bound : Nat) (p : Request σ) : Prop :=
  p.lba + p.total / blockSize + 1 ≤ bound

theorem Within.lba (h : Within blockSize bound p) : p.lba < bound :=
  Nat.lt_of_le_of_lt (Nat.le_add_right _ _) h

theorem Within.advance (h : Within blockSize bound p) (hbs : 0 < blockSize)
    (ht : blockSize ≤ p.total) : Within blockSize bound (p.advance blockSize) := by
  have hlba : (p.advance blockSize).lba ≤ p.lba + 1 := Nat.mod_le _ _
  have hdiv : (p.total - blockSize) / blockSize + 1 = p.total / blockSize :=
    (Nat.div_eq_sub_div hbs ht).symm
  unfold Within at h ⊢
  show (p.advance blockSize).lba + (p.total - blockSize) / blockSize + 1 ≤ bound
  omega

/-- Behind the rest of a first block there is room for the others. -/
theorem within_of_head {q : Request σ} (hp : p.lba + p.total / blockSize + 2 ≤ bound)
    (hlba : q.lba ≤ p.lba + 1) (htotal : q.total ≤ p.total) : Within blockSize bound q := by
  have hdiv : q.total / blockSize ≤ p.total / blockSize := Nat.div_le_div_right htotal
  unfold Within
  omega

theorem first_lba (hp : p.lba + p.total / blockSize + 2 ≤ bound) : p.lba < bound :=
  Nat.lt_of_le_of_lt (Nat.le_add_right _ _)
    (Nat.lt_of_lt_of_le (Nat.lt_add_of_pos_right Nat.two_pos) hp)

/-! ## Reading -/

theorem readHead_over (h : drv.Follows drv' f bound) (offset : Nat)
    (hp : p.lba + p.total / blockSize + 2 ≤ bound) :
    drv'.readHead blockSize offset { p with device := f p.device } =
        carry f (drv.readHead blockSize offset p) ∧
      Within blockSize bound (drv.readHead blockSize offset p).2 := by
  have hlba : p.lba < bound := first_lba hp
  have hread := h.read p.device p.lba p.temp hlba
  unfold readHead
  by_cases ho : offset = 0
  · rw [if_pos ho, if_pos ho]
    exact ⟨rfl, within_of_head hp (Nat.le_succ _) (Nat.le_refl _)⟩
  · simp only [if_neg ho, hread]
    split
    · exact ⟨rfl, within_of_head hp (Nat.le_succ _) (Nat.le_refl _)⟩
    · exact ⟨rfl, within_of_head hp (Nat.mod_le _ _) (Nat.sub_le _ _)⟩

theorem readWhole_over (h : drv.Follows drv' f bound) (fuel : Nat) (hbs : 0 < blockSize)
    (hp : Within blockSize bound p) :
    drv'.readWhole blockSize fuel { p with device := f p.device } =
        carry f (drv.readWhole blockSize fuel p) ∧
      Within blockSize bound (drv.readWhole blockSize fuel p).2 := by
  induction fuel generalizing p with
  | zero => exact ⟨rfl, hp⟩
  | succ fuel ih =>
      have hread := h.read p.device p.lba (p.buffer.drop p.index) hp.lba
      unfold readWhole
      by_cases ht : blockSize ≤ p.total
      · simp only [if_pos ht, hread]
        split
        · exact ⟨rfl, hp⟩
        · exact @ih (Request.advance { p with
            buffer := p.buffer.splice p.index
              (drv.readBlocks p.device p.lba 1 (p.buffer.drop p.index)).2.1
            device := (drv.readBlocks p.device p.lba 1 (p.buffer.drop p.index)).2.2 } blockSize)
            (hp.advance hbs ht)
      · rw [if_neg ht, if_neg ht]
        exact ⟨rfl, hp⟩

theorem readTail_over (h : drv.Follows drv' f bound) (hp : p.lba < bound) :
    drv'.readTail { p with device := f p.device } = carry f (drv.readTail p) := by
  have hread := h.read p.device p.lba p.temp hp
  unfold readTail
  by_cases ht : p.total = 0
  · rw [if_pos ht, if_pos ht]
    rfl
  · simp only [if_neg ht, hread]
    split
    · rfl
    · rfl

theorem readParts_over (h : drv.Follows drv' f bound) (hbs : 0 < blockSize)
    (hp : p.lba + p.total / blockSize + 2 ≤ bound) :
    drv'.readParts blockSize offset { p with device := f p.device } =
      carry f (drv.readParts blockSize offset p) := by
  obtain ⟨hhead, hwithin⟩ := readHead_over h offset hp
  unfold readParts
  rw [hhead]
  generalize drv.readHead blockSize offset p = head at hwithin
  obtain ⟨code, q⟩ := head
  cases code with
  | ok =>
      obtain ⟨hwhole, hwithin'⟩ := readWhole_over h q.total hbs hwithin
      dsimp only [carry] at hwhole ⊢
      rw [hwhole]
      generalize drv.readWhole blockSize q.total q = whole at hwithin'
      obtain ⟨code', q'⟩ := whole
      cases code' with
      | ok => exact readTail_over h hwithin'.lba
      | errorMemory => rfl
      | errorParam => rfl
      | failure => rfl
  | errorMemory => rfl
  | errorParam => rfl
  | failure => rfl

/-! ## Writing -/

theorem writeHead_over (h : drv.Follows drv' f bound) (offset : Nat)
    (hp : p.lba + p.total / blockSize + 2 ≤ bound) :
    drv'.writeHead blockSize offset { p with device := f p.device } =
        carry f (drv.writeHead blockSize offset p) ∧
      Within blockSize bound (drv.writeHead blockSize offset p).2 := by
  have hlba : p.lba < bound := first_lba hp
  have hread := h.read p.device p.lba p.temp hlba
  unfold writeHead
  by_cases ho : offset = 0
  · rw [if_pos ho, if_pos ho]
    exact ⟨rfl, within_of_head hp (Nat.le_succ _) (Nat.le_refl _)⟩
  · simp only [if_neg ho, hread, h.write _ _ _ hlba]
    split
    · exact ⟨rfl, within_of_head hp (Nat.le_succ _) (Nat.le_refl _)⟩
    · split
      · exact ⟨rfl, within_of_head hp (Nat.le_succ _) (Nat.le_refl _)⟩
      · exact ⟨rfl, within_of_head hp (Nat.mod_le _ _) (Nat.sub_le _ _)⟩

theorem writeWhole_over (h : drv.Follows drv' f bound) (fuel : Nat) (hbs : 0 < blockSize)
    (hp : Within blockSize bound p) :
    drv'.writeWhole blockSize fuel { p with device := f p.device } =
        carry f (drv.writeWhole blockSize fuel p) ∧
      Within blockSize bound (drv.writeWhole blockSize fuel p).2 := by
  induction fuel generalizing p with
  | zero => exact ⟨rfl, hp⟩
  | succ fuel ih =>
      have hwrite := h.write p.device p.lba (p.buffer.drop p.index) hp.lba
      unfold writeWhole
      by_cases ht : blockSize ≤ p.total
      · simp only [if_pos ht, hwrite]
        split
        · exact ⟨rfl, hp⟩
        · exact @ih (Request.advance { p with
            device := (drv.writeBlocks p.device p.lba 1 (p.buffer.drop p.index)).2 } blockSize)
            (hp.advance hbs ht)
      · rw [if_neg ht, if_neg ht]
        exact ⟨rfl, hp⟩

theorem writeTail_over (h : drv.Follows drv' f bound) (hp : p.lba < bound) :
    drv'.writeTail { p with device := f p.device } = carry f (drv.writeTail p) := by
  have hread := h.read p.device p.lba p.temp hp
  unfold writeTail
  by_cases ht : p.total = 0
  · rw [if_pos ht, if_pos ht]
    rfl
  · simp only [if_neg ht, hread, h.write _ _ _ hp]
    split
    · rfl
    · split
      · rfl
      · rfl

theorem writeParts_over (h : drv.Follows drv' f bound) (hbs : 0 < blockSize)
    (hp : p.lba + p.total / blockSize + 2 ≤ bound) :
    drv'.writeParts blockSize offset { p with device := f p.device } =
      carry f (drv.writeParts blockSize offset p) := by
  obtain ⟨hhead, hwithin⟩ := writeHead_over h offset hp
  unfold writeParts
  rw [hhead]
  generalize drv.writeHead blockSize offset p = head at hwithin
  obtain ⟨code, q⟩ := head
  cases code with
  | ok =>
      obtain ⟨hwhole, hwithin'⟩ := writeWhole_over h q.total hbs hwithin
      dsimp only [carry] at hwhole ⊢
      rw [hwhole]
      generalize drv.writeWhole blockSize q.total q = whole at hwithin'
      obtain ⟨code', q'⟩ := whole
      cases code' with
      | ok => exact writeTail_over h hwithin'.lba
      | errorMemory => rfl
      | errorParam => rfl
      | failure => rfl
  | errorMemory => rfl
  | errorParam => rfl
  | failure => rfl

/-! ## Requests -/

variable {pos size : Nat}

theorem read_over (h : drv.Follows drv' f bound) (hbs : 0 < blockSize)
    (hp : pos / blockSize + size / blockSize + 2 ≤ bound) (heap : Option Buffer) (stack : Buffer)
    (s : σ) (buffer : Option Buffer) :
    drv'.read blockSize heap stack (f s) pos buffer size =
      let r := drv.read blockSize heap stack s pos buffer size
      (r.1, r.2.1, f r.2.2) := by
  unfold BlockDriver.read
  cases buffer with
  | none => rfl
  | some b =>
      have hparts : ∀ temp, drv'.readParts blockSize (pos % blockSize)
          (freshRequest blockSize pos size b temp (f s)) = carry f (drv.readParts blockSize
            (pos % blockSize) (freshRequest blockSize pos size b temp s)) := fun temp =>
        readParts_over (p := freshRequest blockSize pos size b temp s) h hbs hp
      unfold freshRequest at hparts
      simp only [hparts]
      split
      · rfl
      · split
        · cases heap with
          | none => rfl
          | some temp => rfl
        · rfl

theorem write_over (h : drv.Follows drv' f bound) (hbs : 0 < blockSize)
    (hp : pos / blockSize + size / blockSize + 2 ≤ bound) (heap : Option Buffer) (stack : Buffer)
    (s : σ) (buffer : Option Buffer) :
    drv'.write blockSize heap stack (f s) pos buffer size =
      let r := drv.write blockSize heap stack s pos buffer size
      (r.1, f r.2) := by
  unfold BlockDriver.write
  cases buffer with
  | none => rfl
  | some b =>
      have hparts : ∀ temp, drv'.writeParts blockSize (pos % blockSize)
          (freshRequest blockSize pos size b temp (f s)) = carry f (drv.writeParts blockSize
            (pos % blockSize) (freshRequest blockSize pos size b temp s)) := fun temp =>
        writeParts_over (p := freshRequest blockSize pos size b temp s) h hbs hp
      unfold freshRequest at hparts
      simp only [hparts]
      split
      · rfl
      · split
        · cases heap with
          | none => rfl
          | some temp => rfl
        · rfl

end BlockDriver

/-! ## The drive as a block device -/

/-- The byte of a disk at `a`. -/
def diskByte (disk : AtaDisk) (a : Nat) : UInt8 :=
  let w := disk.word (a / ataSectorSize) (a % ataSectorSize / 2)
  if a % 2 = 0 then w.toUInt8 else (w >>> 8).toUInt8

namespace ATADevice

variable {d : ATADevice} {n : Nat} {other : AtaDisk} {c : AtaChannel}

/-- The virtual functions of the device. -/
def blockDriver (d : ATADevice) : BlockDriver AtaChannel where
  readBlocks c lba count b :=
    let r := (d.readBlocks (.ofNat lba) (.ofNat count) (some b)).run (ataChannel d.ioBase) c
    (r.1.1, r.1.2.getD b, r.2)
  writeBlocks c lba count b :=
    (d.writeBlocks (.ofNat lba) (.ofNat count) (some b)).run (ataChannel d.ioBase) c

/-- A channel between two calls. -/
abbrev AttachedChannel (d : ATADevice) (n : Nat) (other : AtaDisk) : Type :=
  { c : AtaChannel // d.Attached n other c }

/-- The driver, as far as it can name the sectors of a drive. -/
def shortDriver (d : ATADevice) (hd : d.PortsApart) (n : Nat) (other : AtaDisk) :
    BlockDriver (d.AttachedChannel n other) where
  readBlocks c lba count b :=
    if lba < 2 ^ 28 then
      let r := d.blockDriver.readBlocks c.1 lba count b
      (r.1, r.2.1, ⟨r.2.2, (readBlocks_attached hd c.2 _ _ _).1⟩)
    else (.failure, b, c)
  writeBlocks c lba count b :=
    if lba < 2 ^ 28 then
      let r := d.blockDriver.writeBlocks c.1 lba count b
      (r.1, ⟨r.2, writeBlocks_attached hd c.2 _ _ _⟩)
    else (.failure, c)

theorem shortDriver_follows (hd : d.PortsApart) (n : Nat) (other : AtaDisk) :
    (d.shortDriver hd n other).Follows d.blockDriver Subtype.val (2 ^ 28) where
  read c lba b hlba := by
    unfold shortDriver
    dsimp only
    rw [if_pos hlba]
  write c lba b hlba := by
    unfold shortDriver
    dsimp only
    rw [if_pos hlba]

/-- The bytes of the drive. -/
def bytes (d : ATADevice) (c : AtaChannel) : Nat → UInt8 := diskByte (c.disk d.second)

theorem word_bytes (x y : UInt8) :
    (x.toUInt16 ||| (y.toUInt16 <<< 8)).toUInt8 = x ∧
      ((x.toUInt16 ||| (y.toUInt16 <<< 8)) >>> 8).toUInt8 = y := by
  constructor
  · rw [← UInt8.toBitVec_inj]
    ext i hi
    rcases bit_cases hi with rfl | rfl | rfl | rfl | rfl | rfl | rfl | rfl <;> simp
  · rw [← UInt8.toBitVec_inj]
    ext i hi
    rcases bit_cases hi with rfl | rfl | rfl | rfl | rfl | rfl | rfl | rfl <;> simp

/-- The words of a sector, in a buffer. -/
theorem storeWords_sector (d : ATADevice) (c : AtaChannel) (lba : Nat) (b : Buffer) (i : Nat) :
    storeWords (d.sectorWords c lba) 0 b i =
      if i < ataSectorSize then d.bytes c (lba * ataSectorSize + i) else b i := by
  have hlen : (d.sectorWords c lba).length = 256 := by simp [sectorWords, ataSectorSize]
  unfold storeWords bytes diskByte ataSectorSize
  rw [hlen]
  by_cases hi : i < 512
  · have hdiv : (lba * 512 + i) / 512 = lba := by omega
    have hmod : (lba * 512 + i) % 512 = i := by omega
    have hodd : (lba * 512 + i) % 2 = i % 2 := by omega
    have hhalf : i / 2 < 256 := by omega
    have hin : 0 ≤ i ∧ i < 0 + 2 * 256 := ⟨Nat.zero_le _, by omega⟩
    rw [if_pos hin, if_pos hi, hdiv, hmod, hodd]
    simp [sectorWords, ataSectorSize, hhalf]
  · have hout : ¬(0 ≤ i ∧ i < 0 + 2 * 256) := by omega
    rw [if_neg hout, if_neg hi]

/-- A sector that is replaced, byte by byte. -/
theorem diskByte_store (disk : AtaDisk) (lba : Nat) (b : Buffer) (a : Nat) :
    diskByte (disk.store lba (wordsOf b 0 (ataSectorSize / 2))) a =
      if lba * ataSectorSize ≤ a ∧ a < lba * ataSectorSize + ataSectorSize then
        b (a - lba * ataSectorSize)
      else diskByte disk a := by
  have hin : (lba * ataSectorSize ≤ a ∧ a < lba * ataSectorSize + ataSectorSize) ↔
      a / ataSectorSize = lba := by
    unfold ataSectorSize
    omega
  unfold diskByte AtaDisk.store
  dsimp only
  by_cases ha : a / ataSectorSize = lba
  · have hhalf : a % ataSectorSize / 2 < ataSectorSize / 2 := by
      unfold ataSectorSize
      omega
    obtain ⟨hlow, hhigh⟩ := wordOffset_toNat 0 hhalf (by decide)
    have hword : (wordsOf b 0 (ataSectorSize / 2)).getD (a % ataSectorSize / 2) 0 =
        (b (a % ataSectorSize / 2 * 2)).toUInt16 |||
          ((b (a % ataSectorSize / 2 * 2 + 1)).toUInt16 <<< 8) := by
      have hget : (wordsOf b 0 (ataSectorSize / 2)).getD (a % ataSectorSize / 2) 0 =
          wordOf b 0 (a % ataSectorSize / 2) := by
        unfold wordsOf
        simp [hhalf]
      rw [hget]
      unfold wordOf
      rw [hlow, hhigh, show (0 : UInt32).toNat * ataSectorSize = 0 from rfl, Nat.zero_add]
    obtain ⟨hfirst, hsecond⟩ := word_bytes (b (a % ataSectorSize / 2 * 2))
      (b (a % ataSectorSize / 2 * 2 + 1))
    rw [if_pos (hin.mpr ha), ha, Function.update_self, hword]
    by_cases hodd : a % 2 = 0
    · have hat : a % ataSectorSize / 2 * 2 = a - lba * ataSectorSize := by
        unfold ataSectorSize at ha ⊢
        omega
      rw [if_pos hodd, hfirst, hat]
    · have hat : a % ataSectorSize / 2 * 2 + 1 = a - lba * ataSectorSize := by
        unfold ataSectorSize at ha ⊢
        omega
      rw [if_neg hodd, hsecond, hat]
  · rw [if_neg fun h => ha (hin.mp h), Function.update_of_ne ha]

theorem address_toNat {lba : Nat} (hlba : lba < 2 ^ 28) :
    (UInt32.ofNat lba).toNat % 2 ^ 28 = lba := by
  rw [UInt32.toNat_ofNat']
  omega

/-- A block that is read: the sector, if the drive has it. -/
theorem shortDriver_read (hd : d.PortsApart) (hpresent : d.identify.present = true)
    (hn : n ≤ 2 ^ 28) (c : d.AttachedChannel n other) (lba : Nat) (b : Buffer) :
    let r := (d.shortDriver hd n other).readBlocks c lba 1 b
    r.1 = (if lba < n then .ok else .failure) ∧
      (lba < n → r.2.1 = storeWords (d.sectorWords c.1 lba) 0 b) ∧ d.bytes r.2.2.1 = d.bytes c.1 := by
  by_cases hlba : lba < 2 ^ 28
  · have h := readBlocks_one hd c.2 hpresent (.ofNat lba) b
    have hkeep := (readBlocks_attached hd c.2 (.ofNat lba) 1 (some b)).2
    rw [address_toNat hlba] at h
    have heq : (d.shortDriver hd n other).readBlocks c lba 1 b = _ := if_pos hlba
    have hone : UInt32.ofNat 1 = 1 := rfl
    rw [heq]
    unfold blockDriver bytes
    dsimp only
    rw [hone, h, hkeep]
    refine ⟨?_, fun hlt => ?_, rfl⟩
    · split
      · rfl
      · rfl
    · rw [if_pos hlt]
      rfl
  · have heq : (d.shortDriver hd n other).readBlocks c lba 1 b = _ := if_neg hlba
    have hno : ¬ lba < n := fun h => hlba (Nat.lt_of_lt_of_le h hn)
    rw [heq]
    exact ⟨(if_neg hno).symm, fun h => absurd h hno, rfl⟩

/-- A block that is written. -/
theorem shortDriver_write (hd : d.PortsApart) (hpresent : d.identify.present = true)
    (hn : n ≤ 2 ^ 28) (c : d.AttachedChannel n other) (lba : Nat) (b : Buffer) :
    let r := (d.shortDriver hd n other).writeBlocks c lba 1 b
    r.1 = (if lba < n then .ok else .failure) ∧
      r.2.1.disk d.second = if lba < n then
        (c.1.disk d.second).store lba (wordsOf b 0 (ataSectorSize / 2)) else c.1.disk d.second := by
  by_cases hlba : lba < 2 ^ 28
  · have h := writeBlocks_one hd c.2 hpresent (.ofNat lba) b
    rw [address_toNat hlba] at h
    have heq : (d.shortDriver hd n other).writeBlocks c lba 1 b = _ := if_pos hlba
    rw [heq]
    exact h
  · have heq : (d.shortDriver hd n other).writeBlocks c lba 1 b = _ := if_neg hlba
    have hno : ¬ lba < n := fun h => hlba (Nat.lt_of_lt_of_le h hn)
    rw [heq]
    exact ⟨(if_neg hno).symm, (if_neg hno).symm⟩

theorem code_iff {p : Prop} [Decidable p] :
    (if p then ReturnCode.ok else ReturnCode.failure) = .ok ↔ p := by
  split
  · exact iff_of_true rfl ‹p›
  · exact iff_of_false (fun e => by cases e) ‹¬ p›

/-- **The driver moves whole blocks.** -/
theorem shortDriver_flat (hd : d.PortsApart) (hpresent : d.identify.present = true)
    (hn : n ≤ 2 ^ 28) :
    FlatDevice (d.shortDriver hd n other) ataSectorSize n fun c => d.bytes c.1 where
  read_code c lba b := by
    rw [(shortDriver_read hd hpresent hn c lba b).1]
    exact code_iff
  read_block c lba b hlt i := by
    rw [(shortDriver_read hd hpresent hn c lba b).2.1 hlt]
    exact d.storeWords_sector c.1 lba b i
  read_keeps c lba b := (shortDriver_read hd hpresent hn c lba b).2.2
  write_code c lba b := by
    rw [(shortDriver_write hd hpresent hn c lba b).1]
    exact code_iff
  write_block c lba b hlt a := by
    have h := (shortDriver_write hd hpresent hn c lba b).2
    rw [if_pos hlt] at h
    unfold bytes
    rw [h]
    exact diskByte_store (c.1.disk d.second) lba b a
  write_keeps c lba b hge := by
    have h := (shortDriver_write hd hpresent hn c lba b).2
    rw [if_neg (Nat.not_lt_of_ge hge)] at h
    unfold bytes
    rw [h]

end ATADevice

/-! ## Requests to the drive -/

inductive DiskOp
  | read
  | write
  deriving DecidableEq

/-- A call of `BlockDevice::read` or of `BlockDevice::write`. -/
structure DiskRequest where
  op : DiskOp
  pos : UInt32
  size : UInt32
  /-- From the caller, `none` for a null pointer. -/
  buffer : Option Buffer
  /-- What `temp_block` holds at first. -/
  stack : Buffer

/-- What the call returns, and what is in the caller's buffer then. -/
structure DiskReply where
  code : ReturnCode
  buffer : Option Buffer

namespace DiskRequest

variable (q : DiskRequest)

/-- The bytes that are meant. -/
def Range (a : Nat) : Prop := q.pos.toNat ≤ a ∧ a < q.pos.toNat + q.size.toNat

instance (a : Nat) : Decidable (q.Range a) := inferInstanceAs (Decidable (_ ∧ _))

/-- What an array of `total` bytes does with the request: it grants it if the range is in
the array.  A read that is granted brings the range; a write that is granted replaces it,
and one that is refused may have got as far as the end of the array. -/
structure AnsweredBy (total : Nat) (mem : Nat → UInt8) (r : DiskReply) (mem' : Nat → UInt8) :
    Prop where
  code : r.code = .ok ↔
    q.buffer ≠ none ∧ 0 < q.size.toNat ∧ q.pos.toNat + q.size.toNat ≤ total
  brings : q.op = .read → r.code = .ok → ∀ b, q.buffer = some b →
    r.buffer = some fun i => if i < q.size.toNat then mem (q.pos.toNat + i) else b i
  replaces : q.op = .write → r.code = .ok → ∀ b, q.buffer = some b →
    ∀ a, q.Range a → mem' a = b (a - q.pos.toNat)
  keeps : ∀ a, ¬(q.op = .write ∧ q.Range a) → mem' a = mem a

/-- Requests one after another. -/
inductive AllAnsweredBy (total : Nat) :
    (Nat → UInt8) → List DiskRequest → List DiskReply → (Nat → UInt8) → Prop
  | nil (mem : Nat → UInt8) : AllAnsweredBy total mem [] [] mem
  | cons {mem mem₁ mem₂ : Nat → UInt8} {q : DiskRequest} {qs : List DiskRequest}
      {r : DiskReply} {rs : List DiskReply} (first : q.AnsweredBy total mem r mem₁)
      (others : AllAnsweredBy total mem₁ qs rs mem₂) :
      AllAnsweredBy total mem (q :: qs) (r :: rs) mem₂

end DiskRequest

namespace BlockDriver

variable {σ : Type} {drv : BlockDriver σ} {n : Nat} {bytes : σ → Nat → UInt8}

/-- A request for a device with the sectors of an ATA drive: they fit in `temp_block`. -/
def serve (drv : BlockDriver σ) (s : σ) (q : DiskRequest) : DiskReply × σ :=
  match q.op with
  | .read =>
      let r := drv.read ataSectorSize none q.stack s q.pos.toNat q.buffer q.size.toNat
      (⟨r.1, r.2.1⟩, r.2.2)
  | .write =>
      let r := drv.write ataSectorSize none q.stack s q.pos.toNat q.buffer q.size.toNat
      (⟨r.1, q.buffer⟩, r.2)

def serveAll (drv : BlockDriver σ) : σ → List DiskRequest → List DiskReply × σ
  | s, [] => ([], s)
  | s, q :: qs =>
      let (r, s') := drv.serve s q
      let (rs, s'') := drv.serveAll s' qs
      (r :: rs, s'')

theorem read_stack (drv : BlockDriver σ) (temp stack : Buffer) (s : σ) (pos size : Nat)
    (buffer : Option Buffer) :
    drv.read ataSectorSize none stack s pos buffer size =
      drv.read ataSectorSize (some temp) stack s pos buffer size := by
  unfold BlockDriver.read
  cases buffer with
  | none => rfl
  | some b =>
      have hno : ¬ tempBlockSize < ataSectorSize := by decide
      simp only [if_neg hno]

theorem write_stack (drv : BlockDriver σ) (temp stack : Buffer) (s : σ) (pos size : Nat)
    (buffer : Option Buffer) :
    drv.write ataSectorSize none stack s pos buffer size =
      drv.write ataSectorSize (some temp) stack s pos buffer size := by
  unfold BlockDriver.write
  cases buffer with
  | none => rfl
  | some b =>
      have hno : ¬ tempBlockSize < ataSectorSize := by decide
      simp only [if_neg hno]

/-- A request that names no bytes is refused. -/
theorem serve_refused (drv : BlockDriver σ) (s : σ) {q : DiskRequest}
    (hq : q.buffer = none ∨ q.size.toNat = 0) : drv.serve s q = (⟨.errorParam, q.buffer⟩, s) := by
  obtain ⟨op, pos, size, buffer, stack⟩ := q
  unfold serve BlockDriver.read BlockDriver.write
  cases buffer with
  | none =>
      cases op with
      | read => rfl
      | write => rfl
  | some b =>
      have hsize : size.toNat = 0 := hq.resolve_left fun h => by cases h
      cases op with
      | read => simp only [if_pos hsize]
      | write => simp only [if_pos hsize]

/-- **One request.** -/
theorem serve_answered (hd : FlatDevice drv ataSectorSize n bytes) (s : σ) (q : DiskRequest) :
    q.AnsweredBy (n * ataSectorSize) (bytes s) (drv.serve s q).1 (bytes (drv.serve s q).2) := by
  by_cases hq : q.buffer = none ∨ q.size.toNat = 0
  · have hno : ¬(ReturnCode.errorParam = .ok) := by decide
    rw [serve_refused drv s hq]
    refine ⟨⟨fun h => absurd h hno, ?_⟩, fun _ h => absurd h hno, fun _ h => absurd h hno,
      fun _ _ => rfl⟩
    rintro ⟨hbuffer, hsize, -⟩
    exact hq.elim (fun h => absurd h hbuffer) fun h => absurd h (Nat.ne_of_gt hsize)
  · obtain ⟨op, pos, size, buffer, stack⟩ := q
    obtain ⟨hbuffer, hsize⟩ := not_or.mp hq
    obtain ⟨b, rfl⟩ := Option.ne_none_iff_exists'.mp hbuffer
    have hpos : 0 < size.toNat := Nat.pos_of_ne_zero hsize
    cases op with
    | read =>
        obtain ⟨code, b', s', hr, hcode, hfill, hkeep⟩ := read_flat hd (by decide)
          pos.toNat_lt hpos size.toNat_lt stack stack b s
        unfold serve
        dsimp only
        rw [read_stack drv stack, hr]
        refine ⟨⟨fun h => ⟨hbuffer, hpos, hcode.mp h⟩, fun h => hcode.mpr h.2.2⟩, ?_, ?_, ?_⟩
        · intro _ hok b₀ hb
          cases hb
          exact congrArg some (funext (hfill hok))
        · rintro h
          cases h
        · intro a _
          exact congrFun hkeep a
    | write =>
        obtain ⟨code, s', hw, hcode, hrep, hout⟩ := write_flat hd (by decide)
          pos.toNat_lt hpos size.toNat_lt stack stack b s
        unfold serve
        dsimp only
        rw [write_stack drv stack, hw]
        refine ⟨⟨fun h => ⟨hbuffer, hpos, hcode.mp h⟩, fun h => hcode.mpr h.2.2⟩, ?_, ?_, ?_⟩
        · rintro h
          cases h
        · intro _ hok b₀ hb a ha
          cases hb
          exact (hrep hok a).trans (if_pos ha)
        · intro a ha
          exact hout a fun h => ha ⟨rfl, h⟩

/-- **Any requests.** -/
theorem serveAll_answered (hd : FlatDevice drv ataSectorSize n bytes) (s : σ)
    (qs : List DiskRequest) :
    DiskRequest.AllAnsweredBy (n * ataSectorSize) (bytes s) qs (drv.serveAll s qs).1
      (bytes (drv.serveAll s qs).2) := by
  induction qs generalizing s with
  | nil => exact .nil _
  | cons q qs ih => exact .cons (serve_answered hd s q) (ih (drv.serve s q).2)

/-- The same requests before the driver that is followed. -/
theorem serve_over {τ : Type} {drv' : BlockDriver τ} {f : σ → τ}
    (h : drv.Follows drv' f (2 ^ 28)) (s : σ) (q : DiskRequest) :
    drv'.serve (f s) q = ((drv.serve s q).1, f (drv.serve s q).2) := by
  have hpos := q.pos.toNat_lt
  have hsize := q.size.toNat_lt
  have hroom : q.pos.toNat / ataSectorSize + q.size.toNat / ataSectorSize + 2 ≤ 2 ^ 28 := by
    unfold ataSectorSize
    omega
  unfold serve
  cases q.op with
  | read =>
      dsimp only
      rw [read_over h (by decide) hroom]
  | write =>
      dsimp only
      rw [write_over h (by decide) hroom]

theorem serveAll_over {τ : Type} {drv' : BlockDriver τ} {f : σ → τ}
    (h : drv.Follows drv' f (2 ^ 28)) (s : σ) (qs : List DiskRequest) :
    drv'.serveAll (f s) qs = ((drv.serveAll s qs).1, f (drv.serveAll s qs).2) := by
  induction qs generalizing s with
  | nil => rfl
  | cons q qs ih =>
      unfold serveAll
      rw [serve_over h]
      dsimp only
      rw [ih]

end BlockDriver

/-- Any requests, of a driver that has found its drive. -/
theorem ATADevice.requests_answered {d : ATADevice} {n : Nat} {other : AtaDisk} {c : AtaChannel}
    (hd : d.PortsApart) (hpresent : d.identify.present = true) (h : d.Attached n other c)
    (hn : n ≤ 2 ^ 28) (qs : List DiskRequest) :
    ∃ rs c', d.blockDriver.serveAll c qs = (rs, c') ∧
      DiskRequest.AllAnsweredBy (n * ataSectorSize) (d.bytes c) qs rs (d.bytes c') ∧
      d.Attached n other c' := by
  have hflat := BlockDriver.serveAll_answered (shortDriver_flat hd hpresent hn) ⟨c, h⟩ qs
  have hover := BlockDriver.serveAll_over (shortDriver_follows hd n other) ⟨c, h⟩ qs
  generalize (d.shortDriver hd n other).serveAll ⟨c, h⟩ qs = r at hflat hover
  exact ⟨r.1, r.2.1, hover, hflat, r.2.2⟩

/-- **An ATA drive is a flat array of bytes.**  `initialize` finds a drive that is attached.
Whatever requests then come, they are answered as by an array of the size of the drive;
the channel is always left as it was found, and the other drive as it is. -/
theorem ata_disk_is_flat {d : ATADevice} {n : Nat} {other : AtaDisk} {c : AtaChannel}
    (hd : d.PortsApart) (h : d.Attached n other c) (hn : n ≤ 2 ^ 28) :
    ∃ d' c', (d.initializeDevice true).run (ataChannel d.ioBase) c = ((true, d'), c') ∧
      ∀ qs : List DiskRequest, ∃ rs c'', d'.blockDriver.serveAll c' qs = (rs, c'') ∧
        DiskRequest.AllAnsweredBy (n * ataSectorSize) (d.bytes c) qs rs (d.bytes c'') ∧
        d.Attached n other c'' := by
  obtain ⟨c', hinit, hattached, hdisk⟩ := ATADevice.initializeDevice_run hd h
  refine ⟨{ d with identify := ATADevice.identified (d.identityWords c) }, c', hinit, fun qs => ?_⟩
  obtain ⟨rs, c'', hserve, hflat, h''⟩ := ATADevice.requests_answered
    (d := { d with identify := ATADevice.identified (d.identityWords c) }) (c := c') hd rfl
    ⟨hattached.ready, hattached.size, hattached.other⟩ hn qs
  have hbytes : d.bytes c' = d.bytes c := by
    unfold ATADevice.bytes
    rw [hdisk]
  refine ⟨rs, c'', hserve, ?_, ⟨h''.ready, h''.size, h''.other⟩⟩
  rw [← hbytes]
  exact hflat

/-- A channel with a drive of eight sectors and an empty one; they are slow now and then. -/
def smallChannel : AtaChannel where
  disk second := ⟨if second then 0 else 8, fun _ _ => 0, fun _ => 0⟩
  head := 0
  count := 0
  lba0 := 0
  lba1 := 0
  lba2 := 0
  phase := .idle
  error := false
  busy := 0
  latency i := ⟨i % 7, Nat.lt_of_lt_of_le (Nat.mod_lt i (by decide)) (by decide)⟩
  events := 0

/-- Four bytes that lie in two sectors, and the six around them. -/
def acrossSectors : List DiskRequest :=
  [⟨.write, 510, 4, some fun i => UInt8.ofNat i, fun _ => 0⟩,
    ⟨.read, 509, 6, some fun _ => 0, fun _ => 0⟩]

/-- The drive of `ata_init`, with eight sectors. -/
theorem ata_disk_is_flat_small :
    ∃ d' c', ((ATADevice.new 0x1F0 0x3F6 0).initializeDevice true).run (ataChannel 0x1F0)
        smallChannel = ((true, d'), c') ∧
      ∃ rs c'', d'.blockDriver.serveAll c' acrossSectors = (rs, c'') ∧
        DiskRequest.AllAnsweredBy (8 * ataSectorSize)
          ((ATADevice.new 0x1F0 0x3F6 0).bytes smallChannel) acrossSectors rs
          ((ATADevice.new 0x1F0 0x3F6 0).bytes c'') := by
  have hd : (ATADevice.new 0x1F0 0x3F6 0).PortsApart := by
    unfold ATADevice.PortsApart
    decide
  have h : (ATADevice.new 0x1F0 0x3F6 0).Attached 8 (smallChannel.disk true) smallChannel :=
    ⟨⟨rfl, rfl⟩, rfl, rfl⟩
  obtain ⟨d', c', hinit, hall⟩ := ata_disk_is_flat hd h (by decide)
  obtain ⟨rs, c'', hserve, hflat, -⟩ := hall acrossSectors
  exact ⟨d', c', hinit, rs, c'', hserve, hflat⟩

end KmOS
