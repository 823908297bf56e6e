/-
# `KmOS.Shell.JoinPath` — `Shell::join_path`

The block comes from `kmalloc` and holds anything; its size counts the `/` and the
terminator.  `strcpy` ends the directory with a 0, and each `strcat` after it writes
over the 0 it found and puts none in its place.  So whether the path has an end is
for the former content of the block to say (`Ended`).
-/
import KmOS.Fs.Model
import KmOS.Runtime.Strings
import KmOS.Block.Model

namespace KmOS

namespace Shell

/-- `dir_len > 0 && dir[dir_len - 1] != '/'`. -/
def needsSlash (dir : List UInt8) : Bool := dir ≠ [] ∧ dir.getLast? ≠ some slash

/-- `total_len`. -/
def totalLen (dir file : CString) : Nat := dir.chars.length + file.chars.length + 2

/-- `if (dir_len > 0 && dir[dir_len - 1] != '/') strcat(result, "/");` -/
def catSlash (result : LoggedArray UInt8) (dir : List UInt8) (fuel : Nat) :
    Option (LoggedArray UInt8) :=
  if needsSlash dir then strcat result [slash] fuel else some result

/-- `Shell::join_path`, with the answer of `kmalloc` to a size: the path, or null. -/
def joinPath (kmalloc : Nat → Option Buffer) (dir file : CString) (fuel : Nat) :
    Option (Option (LoggedArray UInt8)) :=
  match kmalloc (totalLen dir file) with
  | none => some none
  | some block =>
      let result := strcpy { val := block, written := [] } dir.chars
      match catSlash result dir.chars fuel with
      | none => none
      | some result => (strcat result file.chars fuel).map some

/-- The directory, with a slash at its end unless it is empty. -/
def front (dir : List UInt8) : List UInt8 := if needsSlash dir then dir ++ [slash] else dir

/-- What it is for. -/
def joined (dir file : List UInt8) : List UInt8 := front dir ++ file

/-- It comes back with the joined path, and has written in its block only. -/
def Joins (kmalloc : Nat → Option Buffer) (dir file : CString) : Prop :=
  ∃ fuel r, joinPath kmalloc dir file fuel = some (some r) ∧
    StringAt r.val 0 (joined dir.chars file.chars) ∧ r.Only (· < totalLen dir file)

/-- The block held a 0 wherever a `strcat` takes one for granted. -/
def Ended (block : Buffer) (dir file : List UInt8) : Prop :=
  if needsSlash dir then
    block (dir.length + 1) = 0 ∧ block (dir.length + 1 + file.length) = 0
  else file = [] ∨ block (dir.length + file.length) = 0

instance (block : Buffer) (dir file : List UInt8) : Decidable (Ended block dir file) := by
  unfold Ended
  infer_instance

variable {kmalloc : Nat → Option Buffer} {block : Buffer} {dir file : CString} {fuel : Nat}
  {m r : LoggedArray UInt8}

/-! ## Up to the last `strcat` -/

theorem noNul_front : 0 ∉ front dir.chars := by
  unfold front
  split
  · rw [List.mem_append, not_or]
    exact ⟨dir.noNul, by decide⟩
  · exact dir.noNul

theorem length_front_le (dir : CString) : (front dir.chars).length ≤ dir.chars.length + 1 := by
  unfold front
  split
  · rw [List.length_append]
    exact Nat.le_refl _
  · exact Nat.le_succ _

theorem noNul_joined : 0 ∉ joined dir.chars file.chars :=
  fun h => (List.mem_append.mp h).elim noNul_front file.noNul

/-- The block in front of the last `strcat`. -/
def beforeFile (block : Buffer) (dir : List UInt8) : LoggedArray UInt8 :=
  let result := strcpy { val := block, written := [] } dir
  if needsSlash dir then result.storeAll dir.length [slash] else result

theorem catSlash_eq (hf : dir.chars.length < fuel) :
    catSlash (strcpy ⟨block, []⟩ dir.chars) dir.chars fuel = some (beforeFile block dir.chars) := by
  unfold catSlash beforeFile
  split
  · exact strcat_eq (strcpy_stringAt dir.noNul) hf
  · rfl

theorem eq_of_catSlash (h : catSlash (strcpy ⟨block, []⟩ dir.chars) dir.chars fuel = some m) :
    m = beforeFile block dir.chars := by
  rw [catSlash] at h
  rw [beforeFile]
  by_cases hs : needsSlash dir.chars = true
  · rw [if_pos hs] at h ⊢
    exact eq_of_strcat (strcpy_stringAt dir.noNul) h
  · rw [if_neg hs] at h ⊢
    exact (Option.some.inj h).symm

theorem beforeFile_listAt : ListAt (beforeFile block dir.chars).val 0 (front dir.chars) := by
  have hcpy := (strcpy_stringAt (m := ⟨block, []⟩) dir.noNul).listAt
  unfold beforeFile front
  split
  · exact storeAll_append_listAt hcpy
  · exact hcpy

/-- Behind the terminator of the directory nothing has been written. -/
theorem beforeFile_outside {j : Nat} (hj : dir.chars.length < j) :
    (beforeFile block dir.chars).val j = block j := by
  unfold beforeFile
  split
  · rw [LoggedArray.storeAll_outside (.inr hj), strcpy_outside hj]
  · exact strcpy_outside hj

/-- The last `strcat` finds what `Ended` says. -/
theorem ended_iff :
    Ended block dir.chars file.chars ↔
      (beforeFile block dir.chars).val (front dir.chars).length = 0 ∧
        (beforeFile block dir.chars).val ((front dir.chars).length + file.chars.length) = 0 := by
  unfold Ended front
  by_cases hs : needsSlash dir.chars = true
  · rw [if_pos hs, if_pos hs, List.length_append, List.length_singleton,
      beforeFile_outside (Nat.lt_succ_self _), beforeFile_outside (by omega)]
  · have hz : (beforeFile block dir.chars).val dir.chars.length = 0 := by
      have h := (strcpy_stringAt (m := ⟨block, []⟩) dir.noNul).zero
      rwa [beforeFile, if_neg hs, ← Nat.zero_add dir.chars.length]
    rw [if_neg hs, if_neg hs, and_iff_right hz]
    by_cases hf : file.chars = []
    · rw [hf, List.length_nil, Nat.add_zero]
      exact iff_of_true (.inl rfl) hz
    · have hpos := List.length_pos_iff.mpr hf
      rw [or_iff_right hf, beforeFile_outside (by omega)]

theorem beforeFile_only : (beforeFile block dir.chars).Only (· < totalLen dir file) := by
  have hcpy : (strcpy ⟨block, []⟩ dir.chars).Only (· < totalLen dir file) := by
    refine LoggedArray.only_storeAll.mpr ⟨nofun, fun j _ hj => ?_⟩
    rw [List.length_append, List.length_singleton] at hj
    unfold totalLen
    omega
  unfold beforeFile
  split
  · refine LoggedArray.only_storeAll.mpr ⟨hcpy, fun j _ hj => ?_⟩
    rw [List.length_singleton] at hj
    unfold totalLen
    omega
  · exact hcpy

/-! ## The whole -/

theorem joins_iff (hk : kmalloc (totalLen dir file) = some block) :
    Joins kmalloc dir file ↔ Ended block dir.chars file.chars := by
  rw [ended_iff]
  constructor
  · rintro ⟨fuel, r, hr, hright, -⟩
    rw [joinPath, hk] at hr
    dsimp only at hr
    cases hm : catSlash (strcpy ⟨block, []⟩ dir.chars) dir.chars fuel with
    | none =>
        rw [hm] at hr
        exact nomatch hr
    | some m =>
        rw [hm] at hr
        obtain ⟨r', hcat, hr'⟩ := Option.map_eq_some_iff.mp hr
        obtain rfl := Option.some.inj hr'
        rw [eq_of_catSlash hm] at hcat
        exact zeros_of_strcat noNul_joined beforeFile_listAt hcat hright
  · rintro ⟨hz, hend⟩
    have hlen := length_front_le dir
    have hlt : dir.chars.length + 1 < totalLen dir file := by
      unfold totalLen
      omega
    have hfront : (front dir.chars).length < totalLen dir file := Nat.lt_of_le_of_lt hlen hlt
    have hs : StringAt (beforeFile block dir.chars).val 0 (front dir.chars) :=
      .mk' noNul_front beforeFile_listAt ((Nat.zero_add _).symm ▸ hz)
    refine ⟨totalLen dir file,
      (beforeFile block dir.chars).storeAll (front dir.chars).length file.chars, ?_,
      stringAt_storeAll noNul_joined beforeFile_listAt hend,
      LoggedArray.only_storeAll.mpr ⟨beforeFile_only, fun j _ hj => ?_⟩⟩
    · rw [joinPath, hk]
      dsimp only
      rw [catSlash_eq (Nat.lt_of_succ_lt hlt)]
      dsimp only
      rw [strcat_eq hs hfront]
      rfl
    · unfold totalLen
      omega

/-- **`join_path`**: the path is right, whatever the block held, exactly if it held
a 0 where the `strcat`s put none. -/
theorem joinPath_right_iff (block : Buffer) (dir file : CString)
    (hk : kmalloc (totalLen dir file) = some block) :
    Joins kmalloc dir file ↔ Ended block dir.chars file.chars := joins_iff hk

/-- `/bin` and `ls`, in a block full of ones. -/
def onesBlock : Buffer := fun _ => 1

def binPath : CString := ⟨[0x2F, 0x62, 0x69, 0x6E], by decide⟩

def lsName : CString := ⟨[0x6C, 0x73], by decide⟩

theorem joinPath_garbage : ¬Joins (fun _ => some onesBlock) binPath lsName :=
  mt (joins_iff rfl).mp (by decide)

/-- The same in a block of zeros. -/
theorem joinPath_right_iff_zeros :
    Joins (fun _ => some fun _ => 0) binPath lsName ↔
      Ended (fun _ => 0) binPath.chars lsName.chars :=
  joinPath_right_iff (fun _ => 0) binPath lsName rfl

end Shell

end KmOS
