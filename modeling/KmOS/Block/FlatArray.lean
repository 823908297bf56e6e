/-
# `KmOS.Block.FlatArray` — a block device is a flat array of bytes

For a driver that reads and replaces whole blocks, `BlockDevice::read` and
`BlockDevice::write` act on byte ranges as on an array of `n * block_size_`
bytes.

Both go through a request in three parts.  What they have in common is where
the request stands between the parts (`Standing`): the bytes moved so far and
the bytes to go make up the request, the next block starts where the moved
bytes end, and the moved bytes lie on the device.  From there on reading and
writing differ only in what has been moved: into the buffer (`ReadTo`), or onto
the device (`WrittenTo`).
-/
import KmOS.Block.Model
import Mathlib.Tactic.Ring
import Mathlib.Tactic.Linarith

namespace KmOS

open BlockDriver

/-- A driver of `n` blocks: it moves whole blocks of the array `bytes` and fails
exactly for a block past the end. -/
structure FlatDevice {σ : Type} (drv : BlockDriver σ) (blockSize n : Nat) (bytes : σ → Nat → UInt8) :
    Prop where
  read_code : ∀ s lba b, (drv.readBlocks s lba 1 b).1 = .ok ↔ lba < n
  read_block : ∀ s lba b, lba < n → ∀ i, (drv.readBlocks s lba 1 b).2.1 i =
    if i < blockSize then bytes s (lba * blockSize + i) else b i
  read_keeps : ∀ s lba b, bytes (drv.readBlocks s lba 1 b).2.2 = bytes s
  write_code : ∀ s lba b, (drv.writeBlocks s lba 1 b).1 = .ok ↔ lba < n
  write_block : ∀ s lba b, lba < n → ∀ a, bytes (drv.writeBlocks s lba 1 b).2 a =
    if lba * blockSize ≤ a ∧ a < lba * blockSize + blockSize then b (a - lba * blockSize)
    else bytes s a
  write_keeps : ∀ s lba b, n ≤ lba → bytes (drv.writeBlocks s lba 1 b).2 = bytes s

section
variable {σ : Type} {drv : BlockDriver σ} {blockSize n : Nat} {bytes : σ → Nat → UInt8}
  {pos size : Nat} {p : Request σ}

/-- One block that is read. -/
theorem FlatDevice.readBlock (hd : FlatDevice drv blockSize n bytes) (s : σ) (lba : Nat)
    (b : Buffer) :
    ∃ code temp device, drv.readBlocks s lba 1 b = (code, temp, device) ∧
      (code = .ok ↔ lba < n) ∧
      (lba < n → ∀ i, temp i = if i < blockSize then bytes s (lba * blockSize + i) else b i) ∧
      bytes device = bytes s :=
  ⟨_, _, _, rfl, hd.read_code s lba b, hd.read_block s lba b, hd.read_keeps s lba b⟩

/-! ## Where a request stands -/

structure Standing (blockSize n pos size : Nat) (p : Request σ) : Prop where
  sum : p.index + p.total = size
  block : p.total = 0 ∨ p.lba * blockSize = pos + p.index
  inside : p.index = 0 ∨ pos + p.index ≤ n * blockSize

/-- Buffers and the device do not matter to it. -/
theorem Standing.congr {q : Request σ} (h : Standing blockSize n pos size p) (h1 : q.lba = p.lba)
    (h2 : q.index = p.index) (h3 : q.total = p.total) : Standing blockSize n pos size q := by
  refine ⟨?_, ?_, ?_⟩
  · rw [h2, h3]
    exact h.sum
  · rw [h1, h2, h3]
    exact h.block
  · rw [h2]
    exact h.inside

theorem block_le (blockSize : Nat) {lba : Nat} (h : lba < n) : lba * blockSize + blockSize ≤ n * blockSize := by
  have := Nat.mul_le_mul_right blockSize h
  rwa [Nat.succ_mul] at this

/-- A block that is not there starts past the end. -/
theorem Standing.past_end (h : Standing blockSize n pos size p) (ht : p.total ≠ 0)
    (hlba : ¬ p.lba < n) : n * blockSize < pos + size := by
  have hb := h.block.resolve_left ht
  have hs := h.sum
  have := Nat.mul_le_mul_right blockSize (Nat.le_of_not_lt hlba)
  omega

/-- The last byte moved lies on the device, so at the end the request does. -/
theorem Standing.all_inside (h : Standing blockSize n pos size p) (ht : p.total = 0)
    (hsize : 0 < size) : pos + size ≤ n * blockSize := by
  have hs := h.sum
  rcases h.inside with hi | hi <;> omega

/-- The block numbers of a request fit into 32 bits. -/
theorem lba_fits {lba m : Nat} (hbs : 2 ≤ blockSize) (h : lba * blockSize + blockSize ≤ m)
    (hm : m < 2 ^ 33) : (lba + 1) % 2 ^ 32 = lba + 1 := by
  have h1 : (lba + 1) * 2 ≤ (lba + 1) * blockSize := Nat.mul_le_mul_left _ hbs
  rw [Nat.succ_mul lba blockSize] at h1
  exact Nat.mod_eq_of_lt (by omega)

/-- One whole block further. -/
theorem Standing.next_block (h : Standing blockSize n pos size p) (hbs : 2 ≤ blockSize)
    (hpos : pos < 2 ^ 32) (hsize : size < 2 ^ 32) (ht : blockSize ≤ p.total) (hlba : p.lba < n) :
    Standing blockSize n pos size (p.advance blockSize) := by
  have hb := h.block.resolve_left (by omega)
  have hs := h.sum
  have hle := block_le blockSize hlba
  have hnext : (p.lba + 1) % 2 ^ 32 = p.lba + 1 :=
    lba_fits (m := pos + size) hbs (by omega) (by omega)
  refine ⟨?_, Or.inr ?_, Or.inr ?_⟩
  · show p.index + blockSize + (p.total - blockSize) = size
    omega
  · show (p.lba + 1) % 2 ^ 32 * blockSize = pos + (p.index + blockSize)
    rw [hnext, Nat.succ_mul]
    omega
  · show pos + (p.index + blockSize) ≤ n * blockSize
    omega

/-- The chunk of the first block: up to its end, or all of the request. -/
theorem headChunk_cases (blockSize offset total : Nat) :
    (headChunk blockSize offset total = total ∧ total ≤ blockSize - offset) ∨
      (headChunk blockSize offset total = blockSize - offset ∧ blockSize - offset ≤ total) := by
  unfold headChunk
  dsimp only
  split <;> omega

/-- The request as `read` and `write` start it. -/
structure Fresh (blockSize pos size : Nat) (p : Request σ) : Prop where
  lba : p.lba = pos / blockSize
  index : p.index = 0
  total : p.total = size

theorem Fresh.lba_mul (h : Fresh blockSize pos size p) :
    p.lba * blockSize + pos % blockSize = pos := by
  rw [h.lba, Nat.mul_comm]
  exact Nat.div_add_mod pos blockSize

/-- A request that starts at a block boundary. -/
theorem Fresh.standing (h : Fresh blockSize pos size p) (ho : pos % blockSize = 0) :
    Standing blockSize n pos size p := by
  have hmul := h.lba_mul
  have h1 := h.index
  have h2 := h.total
  refine ⟨by omega, Or.inr (by omega), Or.inl h1⟩

/-- The part of the first block that is done. -/
theorem Fresh.head_done (h : Fresh blockSize pos size p) (hbs : 2 ≤ blockSize) (hpos : pos < 2 ^ 32)
    (hlba : p.lba < n) :
    Standing blockSize n pos size (p.advance (headChunk blockSize (pos % blockSize) p.total)) := by
  have hmul := h.lba_mul
  have h1 := h.index
  have h2 := h.total
  have hle := block_le blockSize hlba
  have hoff : pos % blockSize < blockSize := Nat.mod_lt _ (by omega)
  have hnext : (p.lba + 1) % 2 ^ 32 = p.lba + 1 := by
    have hlt : p.lba ≤ pos := by
      rw [h.lba]
      exact Nat.div_le_self _ _
    have hhalf : p.lba * 2 ≤ p.lba * blockSize := Nat.mul_le_mul_left _ hbs
    exact Nat.mod_eq_of_lt (by omega)
  have hc := headChunk_cases blockSize (pos % blockSize) p.total
  generalize headChunk blockSize (pos % blockSize) p.total = c at hc ⊢
  refine ⟨?_, ?_, Or.inr ?_⟩
  · show p.index + c + (p.total - c) = size
    omega
  · show p.total - c = 0 ∨ (p.lba + 1) % 2 ^ 32 * blockSize = pos + (p.index + c)
    rw [hnext, Nat.succ_mul]
    omega
  · show pos + (p.index + c) ≤ n * blockSize
    omega

/-! ## Reading -/

/-- The bytes moved so far are in the buffer, nothing else of it has changed,
and the device is as it was. -/
structure ReadTo (bytes : σ → Nat → UInt8) (pos : Nat) (s₀ : σ) (b₀ : Buffer) (p : Request σ) :
    Prop where
  filled : ∀ i, p.buffer i = if i < p.index then bytes s₀ (pos + i) else b₀ i
  kept : bytes p.device = bytes s₀

/-- How a part of a read ends. -/
def ReadEnds (blockSize n pos size : Nat) (bytes : σ → Nat → UInt8) (s₀ : σ) (b₀ : Buffer)
    (r : ReturnCode × Request σ) : Prop :=
  (r.1 = .ok ∧ Standing blockSize n pos size r.2 ∧ ReadTo bytes pos s₀ b₀ r.2) ∨
    (r.1 ≠ .ok ∧ n * blockSize < pos + size ∧ bytes r.2.device = bytes s₀)

variable {s₀ : σ} {b₀ : Buffer}

theorem readHead_ends (hd : FlatDevice drv blockSize n bytes) (hbs : 2 ≤ blockSize)
    (hpos : pos < 2 ^ 32) (hsize : 0 < size) (hf : Fresh blockSize pos size p)
    (hp : ReadTo bytes pos s₀ b₀ p) :
    ReadEnds blockSize n pos size bytes s₀ b₀ (drv.readHead blockSize (pos % blockSize) p) := by
  unfold readHead
  by_cases ho : pos % blockSize = 0
  · rw [if_pos ho]
    exact Or.inl ⟨rfl, hf.standing ho, hp⟩
  rw [if_neg ho]
  have hmul := hf.lba_mul
  obtain ⟨code, temp, device, he, hcode, hblock, hkeep⟩ := hd.readBlock p.device p.lba p.temp
  rw [he]
  dsimp only
  by_cases hlba : p.lba < n
  · rw [if_neg (by simpa using hcode.mpr hlba)]
    refine Or.inl ⟨rfl, (hf.head_done hbs hpos hlba).congr rfl rfl rfl, ?_, hkeep.trans hp.kept⟩
    intro i
    have h1 := hf.index
    have hoff : pos % blockSize < blockSize := Nat.mod_lt _ (by omega)
    have hc := headChunk_cases blockSize (pos % blockSize) p.total
    show memcpy p.buffer p.index temp (pos % blockSize)
      (headChunk blockSize (pos % blockSize) p.total) i =
        if i < p.index + headChunk blockSize (pos % blockSize) p.total then bytes s₀ (pos + i)
        else b₀ i
    generalize headChunk blockSize (pos % blockSize) p.total = c at hc ⊢
    unfold memcpy
    by_cases hi : i < c
    · rw [if_pos ⟨by omega, by omega⟩, if_pos (by omega), hblock hlba, if_pos (by omega), hp.kept]
      congr 1
      omega
    · rw [if_neg (by omega), if_neg (by omega), hp.filled, if_neg (by omega)]
  · rw [if_pos (fun hok => hlba (hcode.mp hok))]
    refine Or.inr ⟨nofun, ?_, hkeep.trans hp.kept⟩
    have hlast : pos < pos + size := Nat.lt_add_of_pos_right hsize
    have := Nat.mul_le_mul_right blockSize (Nat.le_of_not_lt hlba)
    omega

theorem readWhole_ends (hd : FlatDevice drv blockSize n bytes) (hbs : 2 ≤ blockSize)
    (hpos : pos < 2 ^ 32) (hsize : size < 2 ^ 32) : ∀ (fuel : Nat) {p : Request σ},
    p.total ≤ fuel → Standing blockSize n pos size p → ReadTo bytes pos s₀ b₀ p →
    ReadEnds blockSize n pos size bytes s₀ b₀ (drv.readWhole blockSize fuel p) ∧
      ((drv.readWhole blockSize fuel p).1 = .ok →
        (drv.readWhole blockSize fuel p).2.total < blockSize)
  | 0, p, hfuel, hs, hp => ⟨Or.inl ⟨rfl, hs, hp⟩, fun _ => by
      show p.total < blockSize
      omega⟩
  | fuel + 1, p, hfuel, hs, hp => by
      unfold readWhole
      by_cases ht : blockSize ≤ p.total
      · rw [if_pos ht]
        obtain ⟨code, tail, device, he, hcode, hblock, hkeep⟩ :=
          hd.readBlock p.device p.lba (p.buffer.drop p.index)
        rw [he]
        dsimp only
        by_cases hlba : p.lba < n
        · rw [if_neg (by simpa using hcode.mpr hlba)]
          have hb := hs.block.resolve_left (by omega)
          refine readWhole_ends hd hbs hpos hsize fuel (p := Request.advance
            { p with buffer := p.buffer.splice p.index tail, device := device } blockSize) ?_
            ((hs.next_block hbs hpos hsize ht hlba).congr rfl rfl rfl) ⟨?_, hkeep.trans hp.kept⟩
          · show p.total - blockSize ≤ fuel
            omega
          · intro i
            show (if p.index ≤ i then tail (i - p.index) else p.buffer i) =
              if i < p.index + blockSize then bytes s₀ (pos + i) else b₀ i
            by_cases hi : p.index ≤ i
            · rw [if_pos hi, hblock hlba]
              by_cases hi' : i < p.index + blockSize
              · rw [if_pos (by omega), if_pos hi', hp.kept]
                congr 1
                omega
              · rw [if_neg (by omega), if_neg hi']
                unfold Buffer.drop
                rw [hp.filled, if_neg (by omega)]
                congr 1
                omega
            · rw [if_neg hi, if_pos (by omega), hp.filled, if_pos (by omega)]
        · rw [if_pos (fun hok => hlba (hcode.mp hok))]
          exact ⟨Or.inr ⟨nofun, hs.past_end (by omega) hlba, hkeep.trans hp.kept⟩, nofun⟩
      · rw [if_neg ht]
        exact ⟨Or.inl ⟨rfl, hs, hp⟩, fun _ => Nat.lt_of_not_le ht⟩

/-- What a whole read answers. -/
theorem readTail_ends (hd : FlatDevice drv blockSize n bytes) (hsize : 0 < size)
    (hs : Standing blockSize n pos size p) (ht : p.total < blockSize)
    (hp : ReadTo bytes pos s₀ b₀ p) :
    ((drv.readTail p).1 = .ok ↔ pos + size ≤ n * blockSize) ∧
      ((drv.readTail p).1 = .ok → ∀ i, (drv.readTail p).2.buffer i =
        if i < size then bytes s₀ (pos + i) else b₀ i) ∧
      bytes (drv.readTail p).2.device = bytes s₀ := by
  have hsum := hs.sum
  unfold readTail
  by_cases hz : p.total = 0
  · rw [if_pos hz]
    refine ⟨⟨fun _ => hs.all_inside hz hsize, fun _ => rfl⟩, fun _ i => ?_, hp.kept⟩
    rw [hp.filled, show p.index = size by omega]
  rw [if_neg hz]
  have hb := hs.block.resolve_left hz
  obtain ⟨code, temp, device, he, hcode, hblock, hkeep⟩ := hd.readBlock p.device p.lba p.temp
  rw [he]
  dsimp only
  by_cases hlba : p.lba < n
  · rw [if_neg (by simpa using hcode.mpr hlba)]
    have hle := block_le blockSize hlba
    refine ⟨⟨fun _ => by omega, fun _ => rfl⟩, fun _ i => ?_, hkeep.trans hp.kept⟩
    show memcpy p.buffer p.index temp 0 p.total i = _
    unfold memcpy
    by_cases hi : p.index ≤ i ∧ i < p.index + p.total
    · rw [if_pos hi, if_pos (by omega), hblock hlba, if_pos (by omega), hp.kept]
      congr 1
      omega
    · rw [if_neg hi, hp.filled]
      by_cases hi' : i < p.index
      · rw [if_pos hi', if_pos (by omega)]
      · rw [if_neg hi', if_neg (by omega)]
  · rw [if_pos (fun hok => hlba (hcode.mp hok))]
    have := hs.past_end hz hlba
    refine ⟨⟨nofun, fun hin => ?_⟩, nofun, hkeep.trans hp.kept⟩
    omega

/-- **Reading**: it succeeds exactly on ranges of the device, and then fills the
buffer with them. -/
theorem readParts_spec (hd : FlatDevice drv blockSize n bytes) (hbs : 2 ≤ blockSize)
    (hpos : pos < 2 ^ 32) (hsize : 0 < size) (hsize' : size < 2 ^ 32)
    (hf : Fresh blockSize pos size p) (hp : ReadTo bytes pos s₀ b₀ p) :
    ((drv.readParts blockSize (pos % blockSize) p).1 = .ok ↔ pos + size ≤ n * blockSize) ∧
      ((drv.readParts blockSize (pos % blockSize) p).1 = .ok → ∀ i,
        (drv.readParts blockSize (pos % blockSize) p).2.buffer i =
          if i < size then bytes s₀ (pos + i) else b₀ i) ∧
      bytes (drv.readParts blockSize (pos % blockSize) p).2.device = bytes s₀ := by
  have failed : ∀ {r : ReturnCode × Request σ},
      r.1 ≠ .ok → n * blockSize < pos + size → bytes r.2.device = bytes s₀ →
      (r.1 = .ok ↔ pos + size ≤ n * blockSize) ∧
        (r.1 = .ok → ∀ i, r.2.buffer i = if i < size then bytes s₀ (pos + i) else b₀ i) ∧
        bytes r.2.device = bytes s₀ := by
    intro r hne hout hkeep
    exact ⟨⟨fun hok => absurd hok hne, fun hin => by omega⟩, fun hok => absurd hok hne, hkeep⟩
  have hhead := readHead_ends hd hbs hpos hsize hf hp
  unfold readParts
  rcases hr : drv.readHead blockSize (pos % blockSize) p with ⟨code, p₁⟩
  rw [hr] at hhead
  rcases hhead with ⟨hok, hs₁, hp₁⟩ | ⟨hne, hout, hkeep⟩
  · cases hok
    dsimp only at hs₁ hp₁ ⊢
    obtain ⟨hwhole, hlt⟩ := readWhole_ends hd hbs hpos hsize' p₁.total (Nat.le_refl _) hs₁ hp₁
    rcases hr₂ : drv.readWhole blockSize p₁.total p₁ with ⟨code₂, p₂⟩
    rw [hr₂] at hwhole hlt
    rcases hwhole with ⟨hok₂, hs₂, hp₂⟩ | ⟨hne₂, hout₂, hkeep₂⟩
    · cases hok₂
      exact readTail_ends hd hsize hs₂ (hlt rfl) hp₂
    · cases code₂ with
      | ok => exact absurd rfl hne₂
      | errorMemory => exact failed (r := (.errorMemory, p₂)) hne₂ hout₂ hkeep₂
      | errorParam => exact failed (r := (.errorParam, p₂)) hne₂ hout₂ hkeep₂
      | failure => exact failed (r := (.failure, p₂)) hne₂ hout₂ hkeep₂
  · cases code with
    | ok => exact absurd rfl hne
    | errorMemory => exact failed (r := (.errorMemory, p₁)) hne hout hkeep
    | errorParam => exact failed (r := (.errorParam, p₁)) hne hout hkeep
    | failure => exact failed (r := (.failure, p₁)) hne hout hkeep

/-! ## Writing -/

/-- The bytes moved so far are on the device, and nothing else of it has
changed. -/
structure WrittenTo (bytes : σ → Nat → UInt8) (pos : Nat) (s₀ : σ) (b₀ : Buffer) (p : Request σ) :
    Prop where
  moved : ∀ a, bytes p.device a =
    if pos ≤ a ∧ a < pos + p.index then b₀ (a - pos) else bytes s₀ a
  buffer : p.buffer = b₀

/-- No byte outside the request has changed. -/
def OutsideKept (bytes : σ → Nat → UInt8) (pos size : Nat) (s₀ s : σ) : Prop :=
  ∀ a, ¬ (pos ≤ a ∧ a < pos + size) → bytes s a = bytes s₀ a

/-- How a part of a write ends. -/
def WriteEnds (blockSize n pos size : Nat) (bytes : σ → Nat → UInt8) (s₀ : σ) (b₀ : Buffer)
    (r : ReturnCode × Request σ) : Prop :=
  (r.1 = .ok ∧ Standing blockSize n pos size r.2 ∧ WrittenTo bytes pos s₀ b₀ r.2) ∨
    (r.1 ≠ .ok ∧ n * blockSize < pos + size ∧ OutsideKept bytes pos size s₀ r.2.device)

theorem WrittenTo.outside (h : WrittenTo bytes pos s₀ b₀ p) (hle : p.index ≤ size) {s : σ}
    (hs : bytes s = bytes p.device) : OutsideKept bytes pos size s₀ s := by
  intro a ha
  rw [hs, h.moved, if_neg (by omega)]

theorem writeHead_ends (hd : FlatDevice drv blockSize n bytes) (hbs : 2 ≤ blockSize)
    (hpos : pos < 2 ^ 32) (hsize : 0 < size) (hf : Fresh blockSize pos size p)
    (hp : WrittenTo bytes pos s₀ b₀ p) :
    WriteEnds blockSize n pos size bytes s₀ b₀ (drv.writeHead blockSize (pos % blockSize) p) := by
  unfold writeHead
  by_cases ho : pos % blockSize = 0
  · rw [if_pos ho]
    exact Or.inl ⟨rfl, hf.standing ho, hp⟩
  rw [if_neg ho]
  have hmul := hf.lba_mul
  have h1 := hf.index
  obtain ⟨code, temp, device, he, hcode, hblock, hkeep⟩ := hd.readBlock p.device p.lba p.temp
  rw [he]
  dsimp only
  by_cases hlba : p.lba < n
  · rw [if_neg (by simpa using hcode.mpr hlba)]
    have hoff : pos % blockSize < blockSize := Nat.mod_lt _ (by omega)
    have hdone := hf.head_done hbs hpos hlba
    have hc := headChunk_cases blockSize (pos % blockSize) p.total
    generalize headChunk blockSize (pos % blockSize) p.total = c at hc hdone ⊢
    have hwcode := hd.write_code device p.lba (memcpy temp (pos % blockSize) p.buffer p.index c)
    have hwblock := hd.write_block device p.lba (memcpy temp (pos % blockSize) p.buffer p.index c)
      hlba
    have hwok := hwcode.mpr hlba
    rw [if_neg (not_not.mpr hwok)]
    refine Or.inl ⟨rfl, hdone.congr rfl rfl rfl, ?_, hp.buffer⟩
    intro a
    show bytes (drv.writeBlocks device p.lba 1
      (memcpy temp (pos % blockSize) p.buffer p.index c)).2 a =
        if pos ≤ a ∧ a < pos + (p.index + c) then b₀ (a - pos) else bytes s₀ a
    rw [hwblock a]
    unfold memcpy
    by_cases hin : p.lba * blockSize ≤ a ∧ a < p.lba * blockSize + blockSize
    · rw [if_pos hin]
      by_cases ha : pos ≤ a ∧ a < pos + (p.index + c)
      · rw [if_pos (by omega), if_pos ha, hp.buffer]
        congr 1
        omega
      · -- the rest of the block is written back as it was read
        rw [if_neg (by omega), if_neg ha, hblock hlba, if_pos (by omega), hp.moved,
          if_neg (by omega)]
        congr 1
        omega
    · rw [if_neg hin, hkeep, hp.moved, if_neg (by omega), if_neg (by omega)]
  · rw [if_pos (fun hok => hlba (hcode.mp hok))]
    refine Or.inr ⟨nofun, ?_, hp.outside (by omega) hkeep⟩
    have hlast : pos < pos + size := Nat.lt_add_of_pos_right hsize
    have := Nat.mul_le_mul_right blockSize (Nat.le_of_not_lt hlba)
    omega

theorem writeWhole_ends (hd : FlatDevice drv blockSize n bytes) (hbs : 2 ≤ blockSize)
    (hpos : pos < 2 ^ 32) (hsize : size < 2 ^ 32) : ∀ (fuel : Nat) {p : Request σ},
    p.total ≤ fuel → Standing blockSize n pos size p → WrittenTo bytes pos s₀ b₀ p →
    WriteEnds blockSize n pos size bytes s₀ b₀ (drv.writeWhole blockSize fuel p) ∧
      ((drv.writeWhole blockSize fuel p).1 = .ok →
        (drv.writeWhole blockSize fuel p).2.total < blockSize)
  | 0, p, hfuel, hs, hp => ⟨Or.inl ⟨rfl, hs, hp⟩, fun _ => by
      show p.total < blockSize
      omega⟩
  | fuel + 1, p, hfuel, hs, hp => by
      unfold writeWhole
      by_cases ht : blockSize ≤ p.total
      · rw [if_pos ht]
        have hsum := hs.sum
        have hcode := hd.write_code p.device p.lba (p.buffer.drop p.index)
        have hblock := hd.write_block p.device p.lba (p.buffer.drop p.index)
        have hkeep := hd.write_keeps p.device p.lba (p.buffer.drop p.index)
        generalize drv.writeBlocks p.device p.lba 1 (p.buffer.drop p.index) = w
          at hcode hblock hkeep ⊢
        obtain ⟨code, device⟩ := w
        dsimp only at hcode hblock hkeep ⊢
        by_cases hlba : p.lba < n
        · rw [if_neg (by simpa using hcode.mpr hlba)]
          have hb := hs.block.resolve_left (by omega)
          refine writeWhole_ends hd hbs hpos hsize fuel (p := Request.advance
            { p with device := device } blockSize) ?_
            ((hs.next_block hbs hpos hsize ht hlba).congr rfl rfl rfl) ⟨?_, hp.buffer⟩
          · show p.total - blockSize ≤ fuel
            omega
          · intro a
            show bytes device a =
              if pos ≤ a ∧ a < pos + (p.index + blockSize) then b₀ (a - pos) else bytes s₀ a
            rw [hblock hlba a]
            by_cases hin : p.lba * blockSize ≤ a ∧ a < p.lba * blockSize + blockSize
            · rw [if_pos hin, if_pos (by omega), hp.buffer]
              unfold Buffer.drop
              congr 1
              omega
            · rw [if_neg hin, hp.moved]
              by_cases ha : pos ≤ a ∧ a < pos + p.index
              · rw [if_pos ha, if_pos (by omega)]
              · rw [if_neg ha, if_neg (by omega)]
        · rw [if_pos (fun hok => hlba (hcode.mp hok))]
          exact ⟨Or.inr ⟨nofun, hs.past_end (by omega) hlba,
            hp.outside (by omega) (hkeep (Nat.le_of_not_lt hlba))⟩, nofun⟩
      · rw [if_neg ht]
        exact ⟨Or.inl ⟨rfl, hs, hp⟩, fun _ => Nat.lt_of_not_le ht⟩

/-- What a whole write leaves. -/
structure WriteSpec (blockSize n pos size : Nat) (bytes : σ → Nat → UInt8) (s₀ : σ) (b₀ : Buffer)
    (r : ReturnCode × Request σ) : Prop where
  code : r.1 = .ok ↔ pos + size ≤ n * blockSize
  replaced : r.1 = .ok → ∀ a, bytes r.2.device a =
    if pos ≤ a ∧ a < pos + size then b₀ (a - pos) else bytes s₀ a
  outside : OutsideKept bytes pos size s₀ r.2.device

theorem WriteSpec.of_failed {r : ReturnCode × Request σ} (hne : r.1 ≠ .ok)
    (hout : n * blockSize < pos + size) (hkeep : OutsideKept bytes pos size s₀ r.2.device) :
    WriteSpec blockSize n pos size bytes s₀ b₀ r :=
  ⟨⟨fun hok => absurd hok hne, fun hin => by omega⟩, fun hok => absurd hok hne, hkeep⟩

theorem writeTail_spec (hd : FlatDevice drv blockSize n bytes) (hsize : 0 < size)
    (hs : Standing blockSize n pos size p) (ht : p.total < blockSize)
    (hp : WrittenTo bytes pos s₀ b₀ p) :
    WriteSpec blockSize n pos size bytes s₀ b₀ (drv.writeTail p) := by
  have hsum := hs.sum
  unfold writeTail
  by_cases hz : p.total = 0
  · rw [if_pos hz]
    have hall : p.index = size := by omega
    refine ⟨⟨fun _ => hs.all_inside hz hsize, fun _ => rfl⟩, fun _ a => ?_,
      hp.outside (Nat.le_of_eq hall) rfl⟩
    rw [hp.moved, hall]
  rw [if_neg hz]
  have hb := hs.block.resolve_left hz
  obtain ⟨code, temp, device, he, hcode, hblock, hkeep⟩ := hd.readBlock p.device p.lba p.temp
  rw [he]
  dsimp only
  by_cases hlba : p.lba < n
  · rw [if_neg (by simpa using hcode.mpr hlba)]
    have hle := block_le blockSize hlba
    have hwcode := hd.write_code device p.lba (memcpy temp 0 p.buffer p.index p.total)
    have hwblock := hd.write_block device p.lba (memcpy temp 0 p.buffer p.index p.total) hlba
    have hwok := hwcode.mpr hlba
    rw [if_neg (not_not.mpr hwok)]
    have hdone : ∀ a, bytes (drv.writeBlocks device p.lba 1
        (memcpy temp 0 p.buffer p.index p.total)).2 a =
        if pos ≤ a ∧ a < pos + size then b₀ (a - pos) else bytes s₀ a := by
      intro a
      rw [hwblock a]
      unfold memcpy
      by_cases hin : p.lba * blockSize ≤ a ∧ a < p.lba * blockSize + blockSize
      · rw [if_pos hin]
        by_cases ha : a < pos + size
        · rw [if_pos (by omega), if_pos (by omega), hp.buffer]
          congr 1
          omega
        · rw [if_neg (by omega), if_neg (by omega), hblock hlba, if_pos (by omega), hp.moved,
            if_neg (by omega)]
          congr 1
          omega
      · rw [if_neg hin, hkeep, hp.moved]
        by_cases ha : pos ≤ a ∧ a < pos + p.index
        · rw [if_pos ha, if_pos (by omega)]
        · rw [if_neg ha, if_neg (by omega)]
    exact ⟨⟨fun _ => by omega, fun _ => rfl⟩, fun _ => hdone,
      fun a ha => (hdone a).trans (if_neg ha)⟩
  · rw [if_pos (fun hok => hlba (hcode.mp hok))]
    exact WriteSpec.of_failed nofun (hs.past_end hz hlba) (hp.outside (by omega) hkeep)

/-- **Writing**: it succeeds exactly on ranges of the device, replaces them, and
never touches another byte. -/
theorem writeParts_spec (hd : FlatDevice drv blockSize n bytes) (hbs : 2 ≤ blockSize)
    (hpos : pos < 2 ^ 32) (hsize : 0 < size) (hsize' : size < 2 ^ 32)
    (hf : Fresh blockSize pos size p) (hp : WrittenTo bytes pos s₀ b₀ p) :
    WriteSpec blockSize n pos size bytes s₀ b₀
      (drv.writeParts blockSize (pos % blockSize) p) := by
  have hhead := writeHead_ends hd hbs hpos hsize hf hp
  unfold writeParts
  rcases hr : drv.writeHead blockSize (pos % blockSize) p with ⟨code, p₁⟩
  rw [hr] at hhead
  rcases hhead with ⟨hok, hs₁, hp₁⟩ | ⟨hne, hout, hkeep⟩
  · cases hok
    dsimp only at hs₁ hp₁ ⊢
    obtain ⟨hwhole, hlt⟩ := writeWhole_ends hd hbs hpos hsize' p₁.total (Nat.le_refl _) hs₁ hp₁
    rcases hr₂ : drv.writeWhole blockSize p₁.total p₁ with ⟨code₂, p₂⟩
    rw [hr₂] at hwhole hlt
    rcases hwhole with ⟨hok₂, hs₂, hp₂⟩ | ⟨hne₂, hout₂, hkeep₂⟩
    · cases hok₂
      exact writeTail_spec hd hsize hs₂ (hlt rfl) hp₂
    · cases code₂ with
      | ok => exact absurd rfl hne₂
      | errorMemory => exact WriteSpec.of_failed hne₂ hout₂ hkeep₂
      | errorParam => exact WriteSpec.of_failed hne₂ hout₂ hkeep₂
      | failure => exact WriteSpec.of_failed hne₂ hout₂ hkeep₂
  · cases code with
    | ok => exact absurd rfl hne
    | errorMemory => exact WriteSpec.of_failed hne hout hkeep
    | errorParam => exact WriteSpec.of_failed hne hout hkeep
    | failure => exact WriteSpec.of_failed hne hout hkeep

end

/-! ## Both functions, both branches -/

section
variable {σ : Type} {drv : BlockDriver σ} {blockSize n : Nat} {bytes : σ → Nat → UInt8}
  {pos size : Nat}

/-- The request either function starts with. -/
def freshRequest (blockSize pos size : Nat) (b temp : Buffer) (s : σ) : Request σ :=
  { lba := pos / blockSize, index := 0, total := size, buffer := b, temp := temp, device := s }

theorem freshRequest_fresh (b temp : Buffer) (s : σ) :
    Fresh blockSize pos size (freshRequest blockSize pos size b temp s) := ⟨rfl, rfl, rfl⟩

/-- With memory for the temporary block, both branches do the same. -/
theorem read_eq (drv : BlockDriver σ) (blockSize pos : Nat) (hsize : 0 < size)
    (temp stack b : Buffer) (s : σ) :
    ∃ t, drv.read blockSize (some temp) stack s pos (some b) size =
      ((drv.readParts blockSize (pos % blockSize) (freshRequest blockSize pos size b t s)).1,
        some (drv.readParts blockSize (pos % blockSize) (freshRequest blockSize pos size b t s)).2.buffer,
        (drv.readParts blockSize (pos % blockSize) (freshRequest blockSize pos size b t s)).2.device) := by
  unfold BlockDriver.read
  dsimp only
  rw [if_neg (Nat.ne_of_gt hsize)]
  by_cases hb : tempBlockSize < blockSize
  · rw [if_pos hb]
    exact ⟨temp, rfl⟩
  · rw [if_neg hb]
    exact ⟨stack, rfl⟩

theorem write_eq (drv : BlockDriver σ) (blockSize pos : Nat) (hsize : 0 < size)
    (temp stack b : Buffer) (s : σ) :
    ∃ t, drv.write blockSize (some temp) stack s pos (some b) size =
      ((drv.writeParts blockSize (pos % blockSize) (freshRequest blockSize pos size b t s)).1,
        (drv.writeParts blockSize (pos % blockSize)
          (freshRequest blockSize pos size b t s)).2.device) := by
  unfold BlockDriver.write
  dsimp only
  rw [if_neg (Nat.ne_of_gt hsize)]
  by_cases hb : tempBlockSize < blockSize
  · rw [if_pos hb]
    exact ⟨temp, rfl⟩
  · rw [if_neg hb]
    exact ⟨stack, rfl⟩

/-- `read` succeeds exactly on ranges of the array; then the buffer holds the
range and is otherwise as it was. -/
theorem read_flat (hd : FlatDevice drv blockSize n bytes) (hbs : 2 ≤ blockSize)
    (hpos : pos < 2 ^ 32) (hsize : 0 < size) (hsize' : size < 2 ^ 32) (temp stack b : Buffer) (s : σ) :
    ∃ code b' s', drv.read blockSize (some temp) stack s pos (some b) size = (code, some b', s') ∧
      (code = .ok ↔ pos + size ≤ n * blockSize) ∧
      (code = .ok → ∀ i, b' i = if i < size then bytes s (pos + i) else b i) ∧
      bytes s' = bytes s := by
  obtain ⟨t, he⟩ := read_eq drv blockSize pos hsize temp stack b s
  have hp : ReadTo bytes pos s b (freshRequest blockSize pos size b t s) :=
    ⟨fun i => (if_neg (Nat.not_lt_zero i)).symm, rfl⟩
  obtain ⟨h1, h2, h3⟩ := readParts_spec hd hbs hpos hsize hsize' (freshRequest_fresh b t s) hp
  exact ⟨_, _, _, he, h1, h2, h3⟩

/-- `write` succeeds exactly on ranges of the array and then replaces the
range; in no case does another byte change. -/
theorem write_flat (hd : FlatDevice drv blockSize n bytes) (hbs : 2 ≤ blockSize)
    (hpos : pos < 2 ^ 32) (hsize : 0 < size) (hsize' : size < 2 ^ 32) (temp stack b : Buffer) (s : σ) :
    ∃ code s', drv.write blockSize (some temp) stack s pos (some b) size = (code, s') ∧
      (code = .ok ↔ pos + size ≤ n * blockSize) ∧
      (code = .ok → ∀ a, bytes s' a =
        if pos ≤ a ∧ a < pos + size then b (a - pos) else bytes s a) ∧
      ∀ a, ¬ (pos ≤ a ∧ a < pos + size) → bytes s' a = bytes s a := by
  obtain ⟨t, he⟩ := write_eq drv blockSize pos hsize temp stack b s
  have hp : WrittenTo bytes pos s b (freshRequest blockSize pos size b t s) :=
    ⟨fun a => (if_neg (fun h => absurd h.2 (Nat.not_lt.mpr h.1))).symm, rfl⟩
  have h := writeParts_spec hd hbs hpos hsize hsize' (freshRequest_fresh b t s) hp
  exact ⟨_, _, he, h.code, h.replaced, h.outside⟩

end

/-- **A block device is a flat array of bytes.**  For a driver that moves whole
blocks, and memory for the temporary block: `read` succeeds exactly on ranges of
the device and then fills the buffer with the range and leaves the rest of it;
`write`, when it succeeds, replaces the range, and never changes a byte outside
it; and a read of a range just written returns what was written. -/
theorem blockDevice_flat {σ : Type} {drv : BlockDriver σ} {blockSize n : Nat}
    {bytes : σ → Nat → UInt8} (hd : FlatDevice drv blockSize n bytes) (hbs : 2 ≤ blockSize)
    {pos size : Nat} (hpos : pos < 2 ^ 32) (hsize : 0 < size) (hsize' : size < 2 ^ 32)
    (temp stack : Buffer) (b : Buffer) (s : σ) :
    (∃ code b' s', drv.read blockSize (some temp) stack s pos (some b) size = (code, some b', s') ∧
      (code = .ok ↔ pos + size ≤ n * blockSize) ∧
      (code = .ok → ∀ i, b' i = if i < size then bytes s (pos + i) else b i) ∧
      bytes s' = bytes s) ∧
    (∃ code s', drv.write blockSize (some temp) stack s pos (some b) size = (code, s') ∧
      (code = .ok → ∀ a, bytes s' a =
        if pos ≤ a ∧ a < pos + size then b (a - pos) else bytes s a) ∧
      (∀ a, ¬ (pos ≤ a ∧ a < pos + size) → bytes s' a = bytes s a) ∧
      (code = .ok → ∀ c : Buffer, ∃ c' s'',
        drv.read blockSize (some temp) stack s' pos (some c) size = (.ok, some c', s'') ∧
        ∀ i, i < size → c' i = b i)) := by
  refine ⟨read_flat hd hbs hpos hsize hsize' temp stack b s, ?_⟩
  obtain ⟨code, s', hw, hcode, hrep, hout⟩ := write_flat hd hbs hpos hsize hsize' temp stack b s
  refine ⟨code, s', hw, hrep, hout, fun hok c => ?_⟩
  obtain ⟨code', c', s'', hr, hcode', hfill, _⟩ :=
    read_flat hd hbs hpos hsize hsize' temp stack c s'
  obtain rfl := hcode'.mpr (hcode.mp hok)
  refine ⟨c', s'', hr, fun i hi => ?_⟩
  rw [hfill rfl i, if_pos hi, hrep hok, if_pos ⟨by omega, by omega⟩, Nat.add_sub_cancel_left]

/-- A disk in memory: `n` blocks of `blockSize` bytes. -/
def flatDisk (blockSize n : Nat) : BlockDriver Buffer where
  readBlocks s lba _ b :=
    if lba < n then (.ok, fun i => if i < blockSize then s (lba * blockSize + i) else b i, s)
    else (.failure, b, s)
  writeBlocks s lba _ b :=
    if lba < n then
      (.ok, fun a => if lba * blockSize ≤ a ∧ a < lba * blockSize + blockSize then
        b (a - lba * blockSize) else s a)
    else (.failure, s)

theorem flatDisk_flat (blockSize n : Nat) :
    FlatDevice (flatDisk blockSize n) blockSize n (fun s => s) where
  read_code s lba b := by
    unfold flatDisk
    dsimp only
    split <;> simp_all
  read_block s lba b h i := by
    unfold flatDisk
    dsimp only
    rw [if_pos h]
  read_keeps s lba b := by
    unfold flatDisk
    dsimp only
    split <;> rfl
  write_code s lba b := by
    unfold flatDisk
    dsimp only
    split <;> simp_all
  write_block s lba b h a := by
    unfold flatDisk
    dsimp only
    rw [if_pos h]
  write_keeps s lba b h := by
    unfold flatDisk
    dsimp only
    rw [if_neg (Nat.not_lt.mpr h)]

/-- A disk in memory: four blocks of three bytes. -/
def ramDisk : BlockDriver Buffer where
  readBlocks s lba _ b :=
    if lba < 4 then (.ok, fun i => if i < 3 then s (lba * 3 + i) else b i, s) else (.failure, b, s)
  writeBlocks s lba _ b :=
    if lba < 4 then
      (.ok, fun a => if lba * 3 ≤ a ∧ a < lba * 3 + 3 then b (a - lba * 3) else s a)
    else (.failure, s)

theorem ramDisk_flat : FlatDevice ramDisk 3 4 (fun s => s) := flatDisk_flat 3 4

/-- Five bytes written from the middle of a block on, and read back. -/
theorem blockDevice_flat_ramDisk :
    ∃ s', ramDisk.write 3 (some fun _ => 0) (fun _ => 0) (fun _ => 0) 2 (some fun i => i.toUInt8) 5 =
        (.ok, s') ∧
      ∃ c' s'', ramDisk.read 3 (some fun _ => 0) (fun _ => 0) s' 2 (some fun _ => 9) 5 =
        (.ok, some c', s'') ∧ ∀ i, i < 5 → c' i = i.toUInt8 := by
  obtain ⟨_, code, s', hw, _, _, hback⟩ := blockDevice_flat ramDisk_flat (by decide)
    (show 2 < 2 ^ 32 by decide) (show 0 < 5 by decide) (by decide) (fun _ => 0) (fun _ => 0)
    (fun i => i.toUInt8) (fun _ => 0)
  have hok : code = .ok := by
    have : (ramDisk.write 3 (some fun _ => 0) (fun _ => 0) (fun _ => 0) 2
        (some fun i => i.toUInt8) 5).1 = .ok := by decide +kernel
    rw [hw] at this
    exact this
  subst hok
  exact ⟨s', hw, hback rfl (fun _ => 9)⟩

end KmOS
