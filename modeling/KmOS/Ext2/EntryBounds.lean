/-
# `KmOS.Ext2.EntryBounds` — which entries lie in their block

`load_directory` follows the lengths of the entries up to the end of the block,
but the last entry may begin there and end behind it.  `Reached` are the
offsets that the lengths lead to.  All that is looked at lies in the block
exactly if every entry that is reached does, as far as it is looked at
(`directory_block_inside_iff`).
-/
import KmOS.Ext2.Termination

namespace KmOS

/-- The offsets of a block that the inner loop comes to, where `processed` bytes of
the directory's `total` came before the block. -/
inductive Reached (block : Buffer) (blockSize : Nat) (total processed : UInt32) : Nat → Prop
  | start : 0 < blockSize → processed.toNat < total.toNat → Reached block blockSize total processed 0
  | next {o : Nat} : Reached block blockSize total processed o → (dirEntryAt block o).recLen ≠ 0 →
      o + (dirEntryAt block o).recLen < blockSize →
      (processed.toNat + (o + (dirEntryAt block o).recLen)) % 2 ^ 32 < total.toNat →
      Reached block blockSize total processed (o + (dirEntryAt block o).recLen)

/-- The bytes of the entry at `o` lie in the block: its length, its other fields if
it has a length, and its name if it has an inode. -/
def EntryInside (block : Buffer) (blockSize o : Nat) : Prop :=
  let entry := dirEntryAt block o
  o + 6 ≤ blockSize ∧ (entry.recLen ≠ 0 → entry.inode ≠ 0 →
    o + 7 ≤ blockSize ∧ (entry.nameLen ≠ 0 → o + 8 + entry.nameLen ≤ blockSize))

namespace Ext2Mount

variable {σ : Type} {m : Ext2Mount σ} {new : New} {dir o : Nat} {block : Buffer} {blockSize : Nat}
  {total processed : UInt32} {r : DirRead σ}

def LookedInside (blockSize : Nat) (r : DirRead σ) : Prop :=
  ∀ x ∈ r.looked, x.1 + x.2 ≤ blockSize

theorem LookedInside.look {first count : Nat} (h : LookedInside blockSize r)
    (hle : first + count ≤ blockSize) : LookedInside blockSize (r.look first count) := by
  intro x hx
  rcases List.mem_append.mp hx with hx | hx
  · exact h x hx
  · rw [List.mem_singleton.mp hx]
    exact hle

/-! ## Entries that are inside -/

theorem newChild_looked {name : List UInt8} {type : FileType} {ino size : Nat} :
    (newChild new dir name type ino size r).2.looked = r.looked := by
  unfold newChild
  split <;> rfl

/-- An entry that is inside is looked at there. -/
theorem readEntry_inside (h : LookedInside m.blockSize r)
    (hin : (dirEntryAt r.blockBuffer r.offset).inode ≠ 0 → r.offset + 7 ≤ m.blockSize ∧
      ((dirEntryAt r.blockBuffer r.offset).nameLen ≠ 0 →
        r.offset + 8 + (dirEntryAt r.blockBuffer r.offset).nameLen ≤ m.blockSize))
    (hlen : r.offset + 6 ≤ m.blockSize) : LookedInside m.blockSize (m.readEntry new dir r).2 := by
  unfold readEntry
  dsimp only
  have h₁ : LookedInside m.blockSize (r.look r.offset 4) := h.look (by omega)
  split
  · exact h₁
  next hino =>
  obtain ⟨h7, hname⟩ := hin hino
  have h₂ : LookedInside m.blockSize ((r.look r.offset 4).look (r.offset + 6) 1) := h₁.look h7
  split
  · exact h₂
  next hne =>
  have h8 := hname hne
  have h₃ : LookedInside m.blockSize (((r.look r.offset 4).look (r.offset + 6) 1).look (r.offset + 8)
      (dirEntryAt r.blockBuffer r.offset).copied) := h₂.look (by rw [copied_eq]; exact h8)
  split
  · exact h₃
  split
  · exact h₃
  · exact h₃
  next v _ =>
  have h₄ := LookedInside.look (r := { ((r.look r.offset 4).look (r.offset + 6) 1).look
    (r.offset + 8) (dirEntryAt r.blockBuffer r.offset).copied with volume := v }) h₃
    (show r.offset + 7 + 1 ≤ m.blockSize by omega)
  split
  · unfold LookedInside
    rw [newChild_looked]
    exact h₄
  split
  · unfold LookedInside
    rw [newChild_looked]
    exact h₄
  · exact h₄

/-- Where the loop is in a block. -/
structure At (block : Buffer) (processed : UInt32) (r : DirRead σ) : Prop where
  blockBuffer : r.blockBuffer = block
  processed : r.processed = (processed.toNat + r.offset) % 2 ^ 32

/-- What a turn leads to. -/
theorem At.next {r' : DirRead σ} {e : Ending} {len : Nat} (hat : At block processed r)
    (hk : Keeps m new r (e, r')) (hlen : r.offset + len < 2 ^ 32) :
    At block processed { r' with
      processed := (r'.processed + len) % 2 ^ 32
      offset := (r'.offset + len) % 2 ^ 32 } ∧ (r'.offset + len) % 2 ^ 32 = r.offset + len := by
  have hoffset : r'.offset = r.offset := hk.offset
  have hprocessed : r'.processed = r.processed := hk.processed
  have hsum : (r'.offset + len) % 2 ^ 32 = r.offset + len := by
    rw [hoffset, Nat.mod_eq_of_lt hlen]
  refine ⟨⟨hk.blockBuffer.trans hat.blockBuffer, ?_⟩, hsum⟩
  show (r'.processed + len) % 2 ^ 32 = (processed.toNat + (r'.offset + len) % 2 ^ 32) % 2 ^ 32
  rw [hsum, hprocessed, hat.processed, Nat.mod_add_mod, Nat.add_assoc]

theorem entryLoop_inside (hbs : m.blockSize < 0x40000000)
    (hall : ∀ o, Reached block m.blockSize total processed o → EntryInside block m.blockSize o)
    (h : LookedInside m.blockSize r) (hat : At block processed r)
    (hr : r.offset < m.blockSize → r.processed < total.toNat →
      Reached block m.blockSize total processed r.offset) {fuel : Nat} :
    LookedInside m.blockSize (m.entryLoop new total.toNat dir fuel r).2 := by
  induction fuel generalizing r with
  | zero => exact h
  | succ fuel ih =>
      unfold entryLoop
      split
      · next hcond =>
          have hreached := hr hcond.1 hcond.2
          obtain ⟨h6, hrest⟩ := hall _ hreached
          obtain rfl := hat.blockBuffer
          dsimp only
          have h₁ : LookedInside m.blockSize (r.look (r.offset + 4) 2) := h.look h6
          split
          · exact h₁
          next hlen =>
          have hlt := recLen_lt r.blockBuffer r.offset
          have hk := (readEntry_keeps m new dir (r.look (r.offset + 4) 2)).of_looked
          have h₂ : LookedInside m.blockSize (m.readEntry new dir (r.look (r.offset + 4) 2)).2 :=
            readEntry_inside h₁ (hrest hlen) h6
          split
          · next r' hr' =>
              rw [hr'] at hk h₂
              obtain ⟨hat', hoffset⟩ := hat.next hk
                (show r.offset + (dirEntryAt r.blockBuffer r.offset).recLen < 2 ^ 32 by omega)
              refine ih h₂ hat' fun ho hp => ?_
              dsimp only at ho hp ⊢
              rw [hoffset] at ho ⊢
              refine hreached.next hlen ho ?_
              rw [hk.processed, hat.processed, Nat.mod_add_mod, Nat.add_assoc] at hp
              exact hp
          · exact h₂
      · exact h

/-! ## Entries that are not -/

/-- A mount without groups, which finds no inode. -/
def noGroups (blockSize : Nat) : Ext2Mount Unit where
  driver := ⟨fun s _ _ b => (.failure, b, s), fun s _ _ _ => (.failure, s)⟩
  deviceBlockSize := 1024
  inodesPerGroup := 1
  inodeTable _ := 0
  groupCount := 0
  blockSize := blockSize
  inodeSize := 128
  ptrsPerBlock := blockSize / 4

theorem readInode_noGroups (v : Volume Unit) (ino : Nat) :
    (noGroups blockSize).readInode v ino = some (none, v) := by
  unfold readInode noGroups
  split
  · rfl
  · simp

/-- There an entry is looked at, and nothing else is done. -/
theorem readEntry_noGroups (blockSize : Nat) (new : New) (dir : Nat) (r : DirRead Unit) :
    ∃ l, (noGroups blockSize).readEntry new dir r = (.done, { r with looked := r.looked ++ l }) ∧
      ((dirEntryAt r.blockBuffer r.offset).inode ≠ 0 → (r.offset + 6, 1) ∈ l ∧
        ((dirEntryAt r.blockBuffer r.offset).nameLen ≠ 0 →
          (r.offset + 8, (dirEntryAt r.blockBuffer r.offset).nameLen) ∈ l)) := by
  unfold readEntry
  dsimp only
  split
  · next h0 => exact ⟨_, rfl, fun h => absurd h0 h⟩
  split
  · next h0 =>
      refine ⟨[(r.offset, 4), (r.offset + 6, 1)], ?_, fun _ => ⟨by simp, fun h => absurd h0 h⟩⟩
      simp [DirRead.look]
  refine ⟨[(r.offset, 4), (r.offset + 6, 1),
    (r.offset + 8, (dirEntryAt r.blockBuffer r.offset).nameLen)], ?_, fun _ => ⟨?_, fun _ => ?_⟩⟩
  · rw [copied_eq, readInode_noGroups]
    split <;> simp [DirRead.look]
  · simp
  · simp

theorem looked_noGroups {r : DirRead Unit} {fuel t : Nat} {x : Nat × Nat} (hx : x ∈ r.looked) :
    x ∈ ((noGroups blockSize).entryLoop new t dir fuel r).2.looked := by
  induction fuel generalizing r with
  | zero => exact hx
  | succ fuel ih =>
      unfold entryLoop
      split
      · dsimp only
        have hx' : x ∈ (r.look (r.offset + 4) 2).looked := List.mem_append_left _ hx
        split
        · exact hx'
        obtain ⟨l, he, -⟩ :=
          readEntry_noGroups blockSize new dir (r.look (r.offset + 4) 2)
        rw [he]
        exact ih (List.mem_append_left _ hx')
      · exact hx

/-- There the loop comes to every offset that is reached. -/
theorem entryLoop_reaches (new : New) (dir : Nat) (hbs : blockSize < 0x40000000)
    {r : DirRead Unit} (h0 : r.offset = 0) (hat : At block processed r)
    (hreached : Reached block blockSize total processed o) :
    o < blockSize ∧ ∃ fuel r', blockSize - o < fuel ∧ r'.offset = o ∧ At block processed r' ∧
      r'.processed < total.toNat ∧
      (noGroups blockSize).entryLoop new total.toNat dir turns r =
        (noGroups blockSize).entryLoop new total.toNat dir fuel r' := by
  induction hreached with
  | start hpos hp =>
      refine ⟨hpos, turns, r, ?_, h0, hat, ?_, rfl⟩
      · unfold turns wordSize
        omega
      · rw [hat.processed, h0, Nat.add_zero, Nat.mod_eq_of_lt processed.toNat_lt]
        exact hp
  | @next o _ hlen hin hp ih =>
      obtain ⟨hlt, fuel, r', hfuel, rfl, hat', hp', he⟩ := ih
      obtain ⟨fuel, rfl⟩ : ∃ n, fuel = n + 1 := ⟨fuel - 1, by omega⟩
      obtain rfl := hat'.blockBuffer
      obtain ⟨l, hentry, -⟩ :=
        readEntry_noGroups blockSize new dir (r'.look (r'.offset + 4) 2)
      have hk := readEntry_keeps (noGroups blockSize) new dir (r'.look (r'.offset + 4) 2)
      rw [hentry] at hk
      obtain ⟨hat'', hoffset⟩ := hat'.next hk.of_looked
        (show r'.offset + (dirEntryAt r'.blockBuffer r'.offset).recLen < 2 ^ 32 by omega)
      refine ⟨hin, fuel, _, ?_, hoffset, hat'', ?_, he.trans (entryLoop_succ hlt hp' hlen hentry)⟩
      · omega
      · rw [hat''.processed, hoffset]
        exact hp

/-- So what is looked at of an entry that is reached is looked at in the end. -/
theorem entryLoop_looks (new : New) (dir : Nat) (hbs : blockSize < 0x40000000)
    {r : DirRead Unit} (h0 : r.offset = 0) (hat : At block processed r)
    (hreached : Reached block blockSize total processed o) :
    let entry := dirEntryAt block o
    let looked := ((noGroups blockSize).entryLoop new total.toNat dir turns r).2.looked
    (o + 4, 2) ∈ looked ∧ (entry.recLen ≠ 0 → entry.inode ≠ 0 →
      (o + 6, 1) ∈ looked ∧ (entry.nameLen ≠ 0 → (o + 8, entry.nameLen) ∈ looked)) := by
  obtain ⟨hlt, fuel, r', hfuel, rfl, hat', hp, he⟩ :=
    entryLoop_reaches new dir hbs h0 hat hreached
  obtain ⟨fuel, rfl⟩ : ∃ n, fuel = n + 1 := ⟨fuel - 1, by omega⟩
  obtain rfl := hat'.blockBuffer
  have hfirst : (r'.offset + 4, 2) ∈ (r'.look (r'.offset + 4) 2).looked :=
    List.mem_append_right _ (List.mem_singleton_self _)
  dsimp only
  rw [he]
  by_cases hlen : (dirEntryAt r'.blockBuffer r'.offset).recLen = 0
  · rw [entryLoop, if_pos ⟨hlt, hp⟩]
    dsimp only
    rw [if_pos hlen]
    exact ⟨hfirst, fun h => absurd hlen h⟩
  · obtain ⟨l, hentry, hl⟩ :=
      readEntry_noGroups blockSize new dir (r'.look (r'.offset + 4) 2)
    rw [entryLoop_succ hlt hp hlen hentry]
    refine ⟨looked_noGroups (List.mem_append_left _ hfirst), fun _ hino => ?_⟩
    obtain ⟨h6, hname⟩ := hl hino
    exact ⟨looked_noGroups (List.mem_append_right _ h6),
      fun hne => looked_noGroups (List.mem_append_right _ (hname hne))⟩

/-- **When a directory block is not left**: whatever it holds, and whatever the
device and the rest of memory are, all that `load_directory` looks at in it is
inside exactly if every entry that is reached is. -/
theorem directory_block_inside_iff (block : Buffer) {blockSize : Nat} (hbs : blockSize < 0x40000000)
    (total processed : UInt32) :
    (∀ (σ : Type) (m : Ext2Mount σ) (new : New) (dir : Nat) (r : DirRead σ),
      m.blockSize = blockSize → r.blockBuffer = block → r.offset = 0 →
      r.processed = processed.toNat → r.looked = [] →
      LookedInside blockSize (m.entryLoop new total.toNat dir turns r).2) ↔
      ∀ o, Reached block blockSize total processed o → EntryInside block blockSize o := by
  constructor
  · intro hinside o hreached
    let r : DirRead Unit := ⟨⟨(), richHeap, fun _ => 0⟩, loneDirectory (noGroups blockSize), block,
      processed.toNat, 0, 0, [], []⟩
    have hat : At block processed r := ⟨rfl, (Nat.mod_eq_of_lt processed.toNat_lt).symm⟩
    have h := hinside Unit (noGroups blockSize) (fun _ _ => none) 1 r rfl rfl rfl rfl rfl
    obtain ⟨h4, hrest⟩ := entryLoop_looks (fun _ _ => none) 1 hbs rfl hat hreached
    refine ⟨h _ h4, fun hlen hino => ?_⟩
    obtain ⟨h6, hname⟩ := hrest hlen hino
    exact ⟨h _ h6, fun hne => h _ (hname hne)⟩
  · rintro hall σ m new dir r rfl hblock h0 hprocessed hlooked
    have hat : At block processed r := ⟨hblock, by
      rw [hprocessed, h0, Nat.add_zero, Nat.mod_eq_of_lt processed.toNat_lt]⟩
    refine entryLoop_inside hbs hall ?_ hat ?_
    · intro x hx
      rw [hlooked] at hx
      exact nomatch hx
    · intro hin hp
      rw [h0] at hin ⊢
      exact .start hin (hprocessed ▸ hp)

/-- In a block of zeros one entry is reached. -/
theorem directory_block_inside_iff_zeros :
    (∀ (σ : Type) (m : Ext2Mount σ) (new : New) (dir : Nat) (r : DirRead σ),
      m.blockSize = 1024 → r.blockBuffer = (fun _ => 0) → r.offset = 0 →
      r.processed = (0 : UInt32).toNat → r.looked = [] →
      LookedInside 1024 (m.entryLoop new (1024 : UInt32).toNat dir turns r).2) ↔
      ∀ o, Reached (fun _ => 0) 1024 1024 0 o → EntryInside (fun _ => 0) 1024 o :=
  directory_block_inside_iff (fun _ => 0) (by decide) 1024 0

/-- A block of 1024 bytes with one entry of 1020, which is not in use. -/
def almostFull : Buffer := fun i => if i = 4 then 0xFC else if i = 5 then 0x03 else 0

/-- The entry at 1020 is looked at, behind the end of the block. -/
theorem directory_block_left :
    ∃ (m : Ext2Mount Unit) (new : New) (dir : Nat) (r : DirRead Unit),
      m.blockSize = 1024 ∧ r.blockBuffer = almostFull ∧ r.offset = 0 ∧ r.processed = 0 ∧
      r.looked = [] ∧ ¬LookedInside 1024 (m.entryLoop new 1024 dir turns r).2 := by
  let r : DirRead Unit := ⟨⟨(), richHeap, fun _ => 0⟩, loneDirectory (noGroups 1024), almostFull,
    0, 0, 0, [], []⟩
  refine ⟨noGroups 1024, fun _ _ => none, 1, r, rfl, rfl, rfl, rfl, rfl, fun h => ?_⟩
  have hat : At almostFull 0 r := ⟨rfl, rfl⟩
  have hreached : Reached almostFull 1024 1024 0 (0 + 1020) :=
    .next (.start (by decide) (by decide)) (by decide) (by decide) (by decide)
  have h4 := (entryLoop_looks (fun _ _ => none) 1 (by decide) rfl hat hreached).1
  rw [show (1024 : UInt32).toNat = 1024 from rfl] at h4
  exact absurd (h _ h4) (by decide)

end Ext2Mount

end KmOS
