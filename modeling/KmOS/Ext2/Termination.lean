/-
# `KmOS.Ext2.Termination` — loading a directory comes to an end

Neither condition of the two loops of `load_directory` has to become false:
entries without a length process nothing, and what has been processed is
counted in 32 bits.  But an entry with a length moves the offset, which ends
the inner loop behind the block (`entryLoop_ends`), and a block without an end
of the directory moves the block index, which ends the outer loop behind the
block map (`blockLoop_ends`).
-/
import KmOS.Ext2.Directory
import KmOS.Ext2.EndOfFile

namespace KmOS

namespace Ext2Mount

variable {σ : Type} {m : Ext2Mount σ} {new : New} {inode : Ext2Inode} {dir total : Nat}
  {r : DirRead σ}

/-! ## What stops the kernel -/

/-- The reasons that there are for an ending. -/
structure Explained (m : Ext2Mount σ) (new : New) (ending : Ending) : Prop where
  turns : ending ≠ .turns
  trap : ending = .trap → m.inodesPerGroup = 0
  null : ending = .null → ∃ t this, new t this = none

theorem Explained.done : Explained m new .done where
  turns := nofun
  trap := nofun
  null := nofun

theorem Explained.of_trap (h : m.inodesPerGroup = 0) : Explained m new .trap where
  turns := nofun
  trap _ := h
  null := nofun

theorem Explained.of_null {t : FileTree} {this : Nat} (h : new t this = none) :
    Explained m new .null where
  turns := nofun
  trap := nofun
  null _ := ⟨t, this, h⟩

theorem readInode_none {v : Volume σ} {ino : Nat} (h : m.readInode v ino = none) :
    m.inodesPerGroup = 0 := by
  by_contra hipg
  unfold readInode at h
  dsimp only at h
  rw [if_neg hipg] at h
  split at h
  · exact nomatch h
  split at h
  · exact nomatch h
  split at h
  · exact nomatch h
  split at h <;> exact nomatch h

/-! ## Entries -/

/-- What an entry leaves to the loops. -/
structure Keeps (m : Ext2Mount σ) (new : New) (r : DirRead σ) (x : Ending × DirRead σ) : Prop where
  explained : Explained m new x.1
  blockBuffer : x.2.blockBuffer = r.blockBuffer
  processed : x.2.processed = r.processed
  blockIndex : x.2.blockIndex = r.blockIndex
  offset : x.2.offset = r.offset
  blocks : x.2.blocks = r.blocks

/-- Reading an inode and looking at bytes leaves everything. -/
theorem Keeps.of_looked {x : Ending × DirRead σ} {v : Volume σ} {l : List (Nat × Nat)}
    (h : Keeps m new { r with volume := v, looked := l } x) : Keeps m new r x :=
  ⟨h.explained, h.blockBuffer, h.processed, h.blockIndex, h.offset, h.blocks⟩

theorem newChild_keeps {name : List UInt8} {type : FileType} {ino size : Nat} :
    Keeps m new r (newChild new dir name type ino size r) := by
  unfold newChild
  split
  · next hnew => exact ⟨.of_null hnew, rfl, rfl, rfl, rfl, rfl⟩
  · exact ⟨.done, rfl, rfl, rfl, rfl, rfl⟩

theorem readEntry_keeps (m : Ext2Mount σ) (new : New) (dir : Nat) (r : DirRead σ) :
    Keeps m new r (m.readEntry new dir r) := by
  unfold readEntry
  dsimp only
  split
  · exact ⟨.done, rfl, rfl, rfl, rfl, rfl⟩
  split
  · exact ⟨.done, rfl, rfl, rfl, rfl, rfl⟩
  split
  · exact ⟨.done, rfl, rfl, rfl, rfl, rfl⟩
  split
  · next hnone => exact ⟨.of_trap (readInode_none hnone), rfl, rfl, rfl, rfl, rfl⟩
  · exact ⟨.done, rfl, rfl, rfl, rfl, rfl⟩
  split
  · exact newChild_keeps.of_looked
  split
  · exact newChild_keeps.of_looked
  · exact ⟨.done, rfl, rfl, rfl, rfl, rfl⟩

/-- A turn of the inner loop. -/
theorem entryLoop_succ {fuel : Nat} {r' : DirRead σ} (hin : r.offset < m.blockSize)
    (hp : r.processed < total) (hlen : (dirEntryAt r.blockBuffer r.offset).recLen ≠ 0)
    (h : m.readEntry new dir (r.look (r.offset + 4) 2) = (.done, r')) :
    m.entryLoop new total dir (fuel + 1) r = m.entryLoop new total dir fuel { r' with
      processed := (r'.processed + (dirEntryAt r.blockBuffer r.offset).recLen) % 2 ^ 32
      offset := (r'.offset + (dirEntryAt r.blockBuffer r.offset).recLen) % 2 ^ 32 } := by
  rw [entryLoop, if_pos ⟨hin, hp⟩]
  dsimp only
  rw [if_neg hlen, h]

/-- The inner loop leaves the outer loop's variables. -/
theorem entryLoop_keeps {fuel : Nat} {e : Ending} {r' : DirRead σ}
    (h : m.entryLoop new total dir fuel r = (e, r')) :
    r'.blockIndex = r.blockIndex ∧ r'.blocks = r.blocks := by
  induction fuel generalizing r with
  | zero =>
      cases h
      exact ⟨rfl, rfl⟩
  | succ fuel ih =>
      unfold entryLoop at h
      split at h
      · dsimp only at h
        split at h
        · cases h
          exact ⟨rfl, rfl⟩
        have hk := readEntry_keeps m new dir (r.look (r.offset + 4) 2)
        split at h
        · next r₁ hr =>
            rw [hr] at hk
            obtain ⟨hindex, hblocks⟩ := ih h
            exact ⟨hindex.trans hk.blockIndex, hblocks.trans hk.blocks⟩
        · rw [h] at hk
          exact ⟨hk.blockIndex, hk.blocks⟩
      · cases h
        exact ⟨rfl, rfl⟩

/-- **The inner loop ends**: the offset grows. -/
theorem entryLoop_ends (hbs : m.blockSize < 0x40000000) {fuel : Nat} {e : Ending} {r' : DirRead σ}
    (h : m.entryLoop new total dir fuel r = (e, r')) (hfuel : m.blockSize - r.offset < fuel) :
    Explained m new e := by
  induction fuel generalizing r with
  | zero => omega
  | succ fuel ih =>
      unfold entryLoop at h
      split at h
      · next hin =>
          dsimp only at h
          split at h
          · cases h
            exact .done
          next hlen =>
          have hk := readEntry_keeps m new dir (r.look (r.offset + 4) 2)
          split at h
          · next r₁ hr =>
              rw [hr] at hk
              have hoffset : r₁.offset = r.offset := hk.offset
              have hlt := recLen_lt r.blockBuffer r.offset
              refine ih h ?_
              dsimp only
              rw [hoffset, Nat.mod_eq_of_lt (by omega)]
              omega
          · rw [h] at hk
            exact hk.explained
      · cases h
        exact .done

/-! ## Blocks -/

/-- A block is in the block map. -/
theorem getBlock_some {v v' : Volume σ} {j number : Nat}
    (h : m.getBlock inode v j = (some number, v')) : j < 12 + m.ptrsPerBlock := by
  by_contra hge
  have hno : ¬HasEntry m.ptrsPerBlock inode j := by
    unfold HasEntry
    rw [if_neg (by omega)]
    exact fun he => absurd he.1 (by omega)
  have hnone := getBlock_none hno v
  rw [h] at hnone
  exact nomatch hnone

/-- **The outer loop ends**: the block index grows. -/
theorem blockLoop_ends (hbs : m.blockSize < 0x40000000) (hptrs : m.ptrsPerBlock = m.blockSize / 4)
    {fuel : Nat} {e : Ending} {r' : DirRead σ} (h : m.blockLoop new inode dir fuel r = (e, r'))
    (hfuel : 12 + m.ptrsPerBlock - r.blockIndex < fuel) :
    Explained m new e ∧
      r'.blocks.length ≤ r.blocks.length + (12 + m.ptrsPerBlock - r.blockIndex) := by
  induction fuel generalizing r with
  | zero => omega
  | succ fuel ih =>
      unfold blockLoop at h
      split at h
      · dsimp only at h
        split at h
        · cases h
          exact ⟨.done, Nat.le_add_right _ _⟩
        next number hblock =>
        have hin := getBlock_some (Prod.ext hblock rfl)
        split at h
        · cases h
          refine ⟨.done, ?_⟩
          rw [List.length_append, List.length_singleton]
          omega
        have hturns : m.blockSize - 0 < turns := by
          unfold turns wordSize
          omega
        split at h
        · next r₁ hr =>
            obtain ⟨hindex, hblocks⟩ := entryLoop_keeps hr
            dsimp only at hindex hblocks
            have hnext : (r₁.blockIndex + 1) % 2 ^ 32 = r.blockIndex + 1 := by
              rw [hindex, Nat.mod_eq_of_lt (by omega)]
            obtain ⟨hexp, hlen⟩ := ih h (by dsimp only; omega)
            dsimp only at hlen
            rw [hblocks, hnext, List.length_append, List.length_singleton] at hlen
            exact ⟨hexp, by omega⟩
        · have hblocks := (entryLoop_keeps h).2
          dsimp only at hblocks
          rw [hblocks, List.length_append, List.length_singleton]
          exact ⟨entryLoop_ends hbs h hturns, by omega⟩
      · cases h
        exact ⟨.done, Nat.le_add_right _ _⟩

/-- **Loading a directory ends**, whatever its inode and its blocks hold, and the
device is asked for no more blocks than the block map has.  What can stop the
kernel on the way is a superblock that has no inodes in a group, or `new`. -/
theorem load_directory_ends (m : Ext2Mount σ) (hptrs : m.ptrsPerBlock = m.blockSize / 4) (new : New)
    (v : Volume σ) (t : Ext2Tree σ) (dir : Nat) :
    let res := m.loadDirectory new v t dir
    res.ending ≠ .turns ∧ (res.ending = .trap → m.inodesPerGroup = 0) ∧
      (res.ending = .null → ∃ t this, new t this = none) ∧
      res.blocks.length ≤ 12 + m.ptrsPerBlock := by
  have hall : ∀ {res}, m.loadDirectory new v t dir = res →
      Explained m new res.ending ∧ res.blocks.length ≤ 12 + m.ptrsPerBlock := by
    intro res h
    unfold loadDirectory at h
    split at h
    · cases h
      exact ⟨.done, Nat.zero_le _⟩
    split at h
    · next hnone =>
        cases h
        exact ⟨.of_trap (readInode_none hnone), Nat.zero_le _⟩
    · cases h
      exact ⟨.done, Nat.zero_le _⟩
    dsimp only at h
    split at h
    · cases h
      exact ⟨.done, Nat.zero_le _⟩
    next hk =>
    obtain ⟨-, hbs⟩ := Heap.kmalloc_bound hk
    have hturns : 12 + m.ptrsPerBlock - 0 < turns := by
      unfold turns wordSize
      omega
    cases h
    refine And.imp_right (fun hlen => Nat.le_trans hlen (Nat.le_of_eq (Nat.zero_add _))) ?_
    exact blockLoop_ends hbs hptrs rfl hturns
  obtain ⟨⟨hturns, htrap, hnull⟩, hlen⟩ := hall rfl
  exact ⟨hturns, htrap, hnull, hlen⟩

/-- A directory without children, with the inode 2. -/
def loneDirectory (m : Ext2Mount σ) : Ext2Tree σ where
  file _ := { name := [], type := .directory }
  kids _ := []
  linked _ := rfl
  short _ := by decide
  node _ := ⟨some m, 2, 0, false⟩

/-- On a disk of ones, where the directory is longer than its block map. -/
theorem load_directory_ends_ones :
    let res := smallMount.loadDirectory (fun _ _ => none) onesVolume (loneDirectory smallMount) 1
    res.ending ≠ .turns ∧ (res.ending = .trap → smallMount.inodesPerGroup = 0) ∧
      (res.ending = .null → ∃ t this, (fun _ _ => none : New) t this = none) ∧
      res.blocks.length ≤ 12 + 256 :=
  load_directory_ends smallMount rfl (fun _ _ => none) onesVolume (loneDirectory smallMount) 1

end Ext2Mount

end KmOS
