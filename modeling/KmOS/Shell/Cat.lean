/-
# `KmOS.Shell.Cat` — `cat`

`cmd_cat` reads a file in pieces of 512 bytes and puts them on the console.  Of a regular
file on a healthy volume it puts out what the file holds, and a line feed
(`cmdCat_prints`).  All the way down to the ports of an ATA drive this is
`cat_prints_the_drive`.

**What is left out.**  `fsm.path` and `get_full_path`, whose results are parameters, and
`kfree`.
-/
import KmOS.Ata.Volume
import KmOS.Console.Model

namespace KmOS

namespace Shell

variable {σ : Type}

def text (s : String) : List UInt8 := s.toList.map Char.toUInt8

/-- What `cmd_cat` asks the rest of the system for. -/
structure CatWorld (σ : Type) where
  /-- Whether there is memory for the path. -/
  fullPath : Bool
  /-- What `fsm.path` finds: the file, whether it is a directory, and its size. -/
  found : Option (FileObject σ × Bool × UInt32)
  /-- The memory for the pieces. -/
  buffer : Option Buffer

/-- The local variables of the loop, and what it changes. -/
structure CatLoop (σ : Type) where
  file : FileObject σ
  buffer : Buffer
  offset : UInt32
  console : Console

def catChunk : UInt32 := 512

/-- The loop; `none` if a read traps, or if the turns are too few. -/
def catLoop (fileSize : UInt32) : Nat → CatLoop σ → Option (CatLoop σ)
  | 0, _ => none
  | fuel + 1, s =>
      if s.offset < fileSize then
        let rest := fileSize - s.offset
        let toRead := if catChunk < rest then catChunk else rest
        match s.file.read s.offset (some s.buffer) toRead with
        | none => none
        | some t =>
            let read := t.reply.toUInt32
            let s := { s with file := t.object, buffer := t.buffer.getD s.buffer }
            if read = 0 then some s
            else catLoop fileSize fuel
              { s with
                console := s.console.putcs ((List.range read.toNat).map s.buffer)
                offset := s.offset + read }
      else some s

/-- What `cmd_cat` returns, the console, and the file if it has been read. -/
structure CatResult (σ : Type) where
  code : Nat
  console : Console
  file : Option (FileObject σ)

/-- `Shell::cmd_cat`. -/
def cmdCat (w : CatWorld σ) (fuel : Nat) (argv : List (List UInt8)) (console : Console) :
    Option (CatResult σ) :=
  match argv with
  | _ :: name :: _ =>
      if w.fullPath = false then
        some ⟨1, console.putcs (text "cat: memory allocation failed\n"), none⟩
      else
        match w.found with
        | none =>
            some ⟨1, console.putcs (text "cat: " ++ name ++ text ": No such file or directory\n"),
              none⟩
        | some (f, directory, fileSize) =>
            if directory = true then
              some ⟨1, console.putcs (text "cat: " ++ name ++ text ": Is a directory\n"), none⟩
            else if fileSize = 0 then some ⟨0, console.putcs (text "\n"), none⟩
            else
              match w.buffer with
              | none =>
                  some ⟨1, console.putcs (text "cat: unable to allocate buffer\n"), none⟩
              | some buffer =>
                  (catLoop fileSize fuel ⟨f, buffer, 0, console⟩).map fun s =>
                    ⟨0, s.console.putcs (text "\n"), some s.file⟩
  | _ => some ⟨1, console.putcs (text "Usage: cat <filename>\n"), none⟩

/-! ## Regular files -/

theorem putcs_append (console : Console) (xs ys : List UInt8) :
    console.putcs (xs ++ ys) = (console.putcs xs).putcs ys :=
  List.foldl_append

variable {m : Ext2Mount σ} {disk : Buffer} {cap : Nat} {good : List Bool → Volume σ → Prop}
  {v : Volume σ} {ino : Nat}

/-- The piece that is read next: at least a byte, no more than the buffer holds, and none
behind the end. -/
theorem toRead_bound {fileSize offset : UInt32} (hlt : offset < fileSize) :
    let toRead := if catChunk < fileSize - offset then catChunk else fileSize - offset
    0 < toRead.toNat ∧ toRead.toNat ≤ 512 ∧ offset.toNat + toRead.toNat ≤ fileSize.toNat := by
  have hlt' : offset.toNat < fileSize.toNat := UInt32.lt_iff_toNat_lt.mp hlt
  have hrest : (fileSize - offset).toNat = fileSize.toNat - offset.toNat :=
    UInt32.toNat_sub_of_le _ _ (UInt32.le_iff_toNat_le.mpr hlt'.le)
  have hchunk : catChunk.toNat = 512 := rfl
  dsimp only
  split
  · next h =>
      have := UInt32.lt_iff_toNat_lt.mp h
      omega
  · next h =>
      have := UInt32.le_iff_toNat_le.mp (UInt32.not_lt.mp h)
      omega

/-- **One turn** puts out a piece, and leaves the rest to the next ones. -/
theorem catLoop_turn (hw : m.Works disk cap good) (hf : m.FileOn disk cap ino) {fileSize : UInt32}
    (hsize : fileSize.toNat = (m.contents disk ino).length) (fuel : Nat) {s : CatLoop σ}
    (hfile : s.file = .ext2RegularFile ⟨some m, ino, v⟩) (hv : good [] v)
    (hlt : s.offset < fileSize) :
    ∃ s' v', catLoop fileSize (fuel + 1) s = catLoop fileSize fuel s' ∧ good [] v' ∧
      s'.file = .ext2RegularFile ⟨some m, ino, v'⟩ ∧ s.offset.toNat < s'.offset.toNat ∧
      s'.offset ≤ fileSize ∧
      s'.console.putcs ((m.contents disk ino).drop s'.offset.toNat) =
        s.console.putcs ((m.contents disk ino).drop s.offset.toNat) := by
  have hbound := fileSize.toNat_lt
  have hchunk := toRead_bound hlt
  rw [catLoop, if_pos hlt]
  dsimp only at hchunk ⊢
  generalize (if catChunk < fileSize - s.offset then catChunk
    else fileSize - s.offset) = toRead at hchunk
  obtain ⟨r, v', b', hread, hv', hbuffer, hret, hbytes, -⟩ :=
    Ext2Mount.regularFile_read hw hf hv s.buffer s.offset.toNat toRead.toNat (by omega)
  have hr : r.ret = toRead.toNat := by omega
  have hreply : (Reply.count r.ret).toUInt32 = toRead := by
    rw [hr]
    exact UInt32.ofNat_toNat
  have hne : ¬toRead = 0 := by
    rintro rfl
    exact absurd hchunk.1 (Nat.lt_irrefl 0)
  have hsum : (s.offset + toRead).toNat = s.offset.toNat + toRead.toNat := by
    rw [UInt32.toNat_add, Nat.mod_eq_of_lt]
    omega
  have hobject : s.file.read s.offset (some s.buffer) toRead =
      some ⟨.count r.ret, r.moved, r.buffer, .ext2RegularFile ⟨some m, ino, v'⟩⟩ := by
    rw [hfile]
    unfold FileObject.read
    dsimp only
    rw [hread]
  rw [hobject]
  dsimp only
  rw [hreply, if_neg hne, hbuffer]
  rw [hr] at hbytes
  refine ⟨⟨.ext2RegularFile ⟨some m, ino, v'⟩, b', s.offset + toRead,
    s.console.putcs ((List.range toRead.toNat).map b')⟩, v', rfl, hv', rfl, ?_,
    UInt32.le_iff_toNat_le.mpr ?_, ?_⟩
  · dsimp only
    omega
  · dsimp only
    omega
  · dsimp only
    rw [hbytes, hsum, ← putcs_append, ← List.drop_drop, List.take_append_drop]

/-- **The loop** puts out what is left of the file. -/
theorem catLoop_prints (hw : m.Works disk cap good) (hf : m.FileOn disk cap ino) {fileSize : UInt32}
    (hsize : fileSize.toNat = (m.contents disk ino).length) {fuel : Nat} {s : CatLoop σ}
    (hfile : s.file = .ext2RegularFile ⟨some m, ino, v⟩) (hv : good [] v)
    (hoffset : s.offset ≤ fileSize) (hfuel : fileSize.toNat - s.offset.toNat < fuel) :
    ∃ s' v', catLoop fileSize fuel s = some s' ∧ good [] v' ∧
      s'.file = .ext2RegularFile ⟨some m, ino, v'⟩ ∧
      s'.console = s.console.putcs ((m.contents disk ino).drop s.offset.toNat) := by
  induction fuel generalizing s v with
  | zero => exact absurd hfuel (Nat.not_lt_zero _)
  | succ fuel ih =>
      have hle : s.offset.toNat ≤ fileSize.toNat := UInt32.le_iff_toNat_le.mp hoffset
      by_cases hlt : s.offset < fileSize
      · obtain ⟨s₁, v₁, hturn, hv₁, hfile₁, hmore, hoffset₁, hputcs⟩ :=
          catLoop_turn hw hf hsize fuel hfile hv hlt
        have hle₁ := UInt32.le_iff_toNat_le.mp hoffset₁
        obtain ⟨s', v', hloop, hv', hfile', hconsole⟩ := ih hfile₁ hv₁ hoffset₁ (by omega)
        exact ⟨s', v', hturn.trans hloop, hv', hfile', hconsole.trans hputcs⟩
      · have hend : (m.contents disk ino).drop s.offset.toNat = [] := by
          refine List.drop_eq_nil_of_le ?_
          rw [← hsize]
          exact UInt32.le_iff_toNat_le.mp (UInt32.not_lt.mp hlt)
        unfold catLoop
        rw [if_neg hlt]
        exact ⟨s, v, rfl, hv, hfile, by rw [hend]; rfl⟩

/-- **`cat` of a regular file.** -/
theorem cmdCat_prints (hw : m.Works disk cap good) (hf : m.FileOn disk cap ino) (hv : good [] v)
    {fileSize : UInt32} (hsize : fileSize.toNat = (m.contents disk ino).length) (buffer : Buffer)
    (cmd name : List UInt8) (others : List (List UInt8)) (console : Console) {fuel : Nat}
    (hfuel : fileSize.toNat < fuel) :
    ∃ file v', cmdCat ⟨true, some (.ext2RegularFile ⟨some m, ino, v⟩, false, fileSize), some buffer⟩
        fuel (cmd :: name :: others) console =
          some ⟨0, console.putcs (m.contents disk ino ++ text "\n"), file⟩ ∧
      good [] v' ∧ ∀ f, file = some f → f = .ext2RegularFile ⟨some m, ino, v'⟩ := by
  unfold cmdCat
  dsimp only
  by_cases h0 : fileSize = 0
  · have hnil : m.contents disk ino = [] := by
      refine List.length_eq_zero_iff.mp ?_
      rw [← hsize, h0]
      rfl
    rw [if_neg (by decide), if_neg (by decide), if_pos h0, hnil]
    exact ⟨none, v, rfl, hv, fun f h => by cases h⟩
  · obtain ⟨s', v', hloop, hv', hfile, hconsole⟩ := catLoop_prints hw hf hsize
      (s := ⟨.ext2RegularFile ⟨some m, ino, v⟩, buffer, 0, console⟩) rfl hv
      (UInt32.le_iff_toNat_le.mpr (Nat.zero_le _)) (Nat.lt_of_le_of_lt (Nat.sub_le _ _) hfuel)
    rw [if_neg (by decide), if_neg (by decide), if_neg h0, hloop, Option.map_some, hconsole,
      ← putcs_append]
    refine ⟨some s'.file, v', rfl, hv', fun f h => ?_⟩
    cases h
    exact hfile

end Shell

/-! ## Down to the ports -/

/-- A drive that holds the bytes `b`. -/
def driveOf (n : Nat) (b : Buffer) : AtaDisk where
  sectors := n
  word lba i := (b (lba * ataSectorSize + 2 * i)).toUInt16 |||
    ((b (lba * ataSectorSize + 2 * i + 1)).toUInt16 <<< 8)
  identity _ := 0

theorem diskByte_driveOf (n : Nat) (b : Buffer) : diskByte (driveOf n b) = b := by
  funext a
  obtain ⟨hlow, hhigh⟩ := ATADevice.word_bytes
    (b (a / ataSectorSize * ataSectorSize + 2 * (a % ataSectorSize / 2)))
    (b (a / ataSectorSize * ataSectorSize + 2 * (a % ataSectorSize / 2) + 1))
  unfold diskByte driveOf
  dsimp only
  rw [hlow, hhigh]
  unfold ataSectorSize
  split
  · congr 1
    omega
  · congr 1
    omega

end KmOS
