/-
# `KmOS.System.Variable` — environment variables and who reads them

`Variable::write` stores a string and its length with the terminator as the size of
the file.  `Variable::read` looks at neither position nor size of the file: it
copies from the start of the string, with `strncpy`, which copies 255 bytes at most
whatever its bound.  `System::getvar` and the loop of `cmd_cat` both read with the
size of the file.

The value is the list of its bytes, as in `KmOS.Fs.Descriptor`; `read_eq_readVariable`
and `write_eq_writeVariable` say that both models do the same.  `cmd_cat` is modelled
from where it has found a file that is no directory.
-/
import KmOS.Ext2.Device
import KmOS.Fs.Descriptor
import KmOS.Fs.Model
import KmOS.Lib.Strings
import Mathlib.Data.List.TakeWhile

namespace KmOS

/-- `class Variable`: what `value_` points to, without the byte that ends it, and
`size` of `File`. -/
structure Variable where
  value : Option (List UInt8)
  size : Nat

namespace Variable

/-- `Variable::read`: the answer, and the buffer. -/
def read (file : Variable) (_pos : Nat) (buffer : Buffer) (size : Nat) : UInt32 × Buffer :=
  match file.value with
  | none => (0xFFFFFFFF, buffer)
  | some value =>
      let readSize := strnlen value size
      (UInt32.ofNat readSize,
        memcpy buffer 0 (fun i => value.getD i 0) 0 (strncpyCount value readSize))

/-- `Variable::write`: the answer, the variable, and the heap. -/
def write (file : Variable) (heap : Heap) (_pos : Nat) (buffer : Buffer) (size : Nat) :
    UInt32 × Variable × Heap :=
  match heap.kmalloc ((size + 1) % 2 ^ 32) with
  | (none, heap) => (0xFFFFFFFF, { file with value := none }, heap)
  | (some block, heap) =>
      let value := memcpy block 0 buffer 0 (intCount size)
      (UInt32.ofNat size,
        { value := some ((List.range size).map value), size := (size + 1) % 2 ^ 32 }, heap)

theorem read_eq_readVariable {σ : Type} (file : Variable) (heap : Heap) (pos size : Nat)
    (buffer : Buffer) :
    let t : Transfer σ := FileObject.readVariable file.value heap (some buffer) size
    file.read pos buffer size = (t.reply.toUInt32, t.buffer.getD buffer) ∧
      t.object = .variable file.value heap := by
  unfold read FileObject.readVariable
  cases hv : file.value with
  | none => exact ⟨rfl, rfl⟩
  | some value => exact ⟨rfl, rfl⟩

theorem write_eq_writeVariable {σ : Type} (file : Variable) (heap : Heap) (pos size : Nat)
    (buffer : Buffer) :
    let t : Transfer σ := FileObject.writeVariable heap (some buffer) size
    let (ret, file', heap') := file.write heap pos buffer size
    ret = t.reply.toUInt32 ∧ t.object = .variable file'.value heap' := by
  unfold write FileObject.writeVariable
  cases hk : heap.kmalloc ((size + 1) % 2 ^ 32) with
  | mk block heap' =>
      cases block with
      | none => exact ⟨rfl, rfl⟩
      | some block => exact ⟨rfl, rfl⟩

end Variable

/-! ## The readers -/

def newline : UInt8 := 0x0A

def console (s : String) : List UInt8 := s.toUTF8.toList

/-- `System::getvar`, for what `var->find(name)` has found. -/
def getvar (temp : Option Variable) (heap : Heap) : Except Fault (Option Buffer × Heap) :=
  match temp with
  | none => .ok (none, heap)
  | some temp =>
      match heap.kmalloc temp.size with
      | (none, _) => .error .nullDereference
      | (some varin, heap) =>
          let varin := memcpy varin 0 (fun _ => 0) 0 (intCount temp.size)
          .ok (some (temp.read 0 varin temp.size).2, heap)

def chunk : Nat := 512

/-- The loop of `cmd_cat`: what it has printed at its end. -/
def catLoop (file : Variable) (fileSize : Nat) :
    Nat → Nat → Buffer → List UInt8 → Option (List UInt8)
  | 0, _, _, _ => none
  | fuel + 1, offset, buffer, out =>
      if offset < fileSize then
        let toRead := if chunk < fileSize - offset then chunk else fileSize - offset
        let (read, buffer) := file.read offset buffer toRead
        if read = 0 then some out
        else
          catLoop file fileSize fuel ((offset + read.toNat) % 2 ^ 32) buffer
            (out ++ (List.range read.toNat).map buffer)
      else some out

/-- `cmd_cat` on a file: its answer, what it prints, and the heap. -/
def catFile (file : Variable) (heap : Heap) (fuel : Nat) : Option (Nat × List UInt8 × Heap) :=
  if file.size = 0 then some (0, [newline], heap)
  else
    match heap.kmalloc chunk with
    | (none, heap) => some (1, console "cat: unable to allocate buffer\n", heap)
    | (some buffer, heap) =>
        (catLoop file file.size fuel 0 buffer []).map fun out => (0, out ++ [newline], heap)

/-! ## What `read` does -/

section Read

variable {v : List UInt8} {buffer : Buffer} {pos size n : Nat}

theorem takeWhile_take (hv : 0 ∉ v) : (v.take n).takeWhile (· ≠ 0) = v.take n := by
  refine List.takeWhile_eq_self_iff.mpr fun c hc => decide_eq_true fun h => ?_
  exact hv (h ▸ List.mem_of_mem_take hc)

theorem strnlen_eq (hv : 0 ∉ v) : strnlen v size = min (intCount size) v.length := by
  rw [strnlen, takeWhile_take hv, List.length_take]

/-- `strncpy` bounded by a part of the string: 255 bytes, or the part. -/
theorem strncpyCount_eq (hv : 0 ∉ v) (hn : n ≤ v.length) : strncpyCount v n = min 255 n := by
  rw [strncpyCount, takeWhile_take hv, List.length_take]
  grind

/-- The value that a variable of these bytes holds. -/
def Variable.of (v : List UInt8) : Variable := { value := some v, size := v.length + 1 }

/-- How far a read gets, whatever its position is. -/
def readable (v : List UInt8) (size : Nat) : Nat := min (intCount size) v.length

theorem read_of (hv : 0 ∉ v) :
    (Variable.of v).read pos buffer size =
      (UInt32.ofNat (readable v size),
        memcpy buffer 0 (fun i => v.getD i 0) 0 (min 255 (readable v size))) := by
  have hle : readable v size ≤ v.length := Nat.min_le_right _ _
  show (UInt32.ofNat (strnlen v size), memcpy buffer 0 _ 0 (strncpyCount v (strnlen v size))) = _
  rw [strnlen_eq hv, ← readable, strncpyCount_eq hv hle]

/-- What a `memcpy` from the start of the value has copied. -/
theorem memcpy_listAt (hn : n ≤ v.length) :
    ListAt (memcpy buffer 0 (fun i => v.getD i 0) 0 n) 0 (v.take n) := by
  refine ListAt.iff_getElem?.mpr fun j hj => ?_
  rw [List.length_take, Nat.min_eq_left hn] at hj
  rw [List.getElem?_take_of_lt hj, memcpy, if_pos ⟨Nat.zero_le _, by omega⟩, Nat.zero_add,
    Nat.zero_add, Nat.sub_zero, List.getD_eq_getElem?_getD,
    List.getElem?_eq_getElem (Nat.lt_of_lt_of_le hj hn)]
  rfl

theorem memcpy_outside {dst src : Buffer} {j : Nat} (hj : n ≤ j) :
    memcpy dst 0 src 0 n j = dst j := by
  refine if_neg fun h => ?_
  omega

end Read

/-! ## The three ways to read -/

section Readers

variable {v : List UInt8} {buffer block : Buffer} {heap heap' : Heap} {pos size : Nat}

/-- The bytes from `pos` on, `size` at most. -/
def wanted (v : List UInt8) (pos size : Nat) : List UInt8 := (v.drop pos).take size

/-- `read` gives them, whatever the buffer held. -/
def ReadsAt (file : Variable) (v : List UInt8) (pos size : Nat) : Prop :=
  ∀ buffer, (file.read pos buffer size).1.toNat = (wanted v pos size).length ∧
    ListAt (file.read pos buffer size).2 0 (wanted v pos size)

theorem readsAt_iff (hv : 0 ∉ v) (hlt : v.length < 2 ^ 32) :
    ReadsAt (.of v) v pos size ↔
      wanted v pos size = v.take (intCount size) ∧ readable v size ≤ 255 := by
  have hle : readable v size ≤ v.length := Nat.min_le_right _ _
  have hret : (UInt32.ofNat (readable v size)).toNat = readable v size :=
    UInt32.toNat_ofNat_of_lt' (Nat.lt_of_le_of_lt hle hlt)
  have htake : v.take (readable v size) = v.take (intCount size) := by
    rw [readable, ← List.take_eq_take_min]
  have hlen : (v.take (intCount size)).length = readable v size := List.length_take ..
  unfold ReadsAt
  simp only [read_of hv, hret]
  constructor
  · intro h
    have hshort : readable v size ≤ 255 := by
      refine Nat.le_of_not_lt fun hgt => ?_
      -- a buffer that holds something else where `strncpy` has stopped
      obtain ⟨hwlen, hw⟩ := h fun _ => (wanted v pos size).getD 255 0 + 1
      have hget := ListAt.iff_getElem?.mp hw 255 (hwlen ▸ hgt)
      rw [memcpy_outside (by omega)] at hget
      exact absurd (List.getD_eq_getElem?_getD ▸ congrArg (Option.getD · 0) hget) (by simp)
    obtain ⟨hwlen, hw⟩ := h fun _ => 0
    rw [Nat.min_eq_right hshort] at hw
    exact ⟨(hw.unique (memcpy_listAt hle) (by rw [← hwlen, htake, hlen])).trans htake, hshort⟩
  · rintro ⟨hw, hshort⟩ buffer
    rw [hw, hlen, Nat.min_eq_right hshort, ← htake]
    exact ⟨rfl, memcpy_listAt hle⟩

/-- `getvar` gives the string. -/
def GetvarGives (file : Variable) (heap : Heap) (v : List UInt8) : Prop :=
  ∃ varin heap', getvar (some file) heap = .ok (some varin, heap') ∧ StringAt varin 0 v

theorem getvar_of (temp : Variable) (hk : heap.kmalloc temp.size = (some block, heap')) :
    getvar (some temp) heap =
      .ok (some (temp.read 0 (memcpy block 0 (fun _ => 0) 0 (intCount temp.size)) temp.size).2,
        heap') := by
  rw [getvar]
  dsimp only
  rw [hk]

theorem getvar_iff (hv : 0 ∉ v) (hk : heap.kmalloc (v.length + 1) = (some block, heap')) :
    GetvarGives (.of v) heap v ↔ v.length ≤ 255 := by
  obtain ⟨-, hlt⟩ := Heap.kmalloc_bound hk
  have hcount : intCount (v.length + 1) = v.length + 1 := if_pos (by omega)
  have hread : readable v (v.length + 1) = v.length := by
    rw [readable, hcount, Nat.min_eq_right (Nat.le_succ _)]
  let zeros := memcpy block 0 (fun _ => 0) 0 (v.length + 1)
  let varin := memcpy zeros 0 (fun i => v.getD i 0) 0 (min 255 v.length)
  have hvar : getvar (some (.of v)) heap = .ok (some varin, heap') := by
    have hsize : (Variable.of v).size = v.length + 1 := rfl
    rw [getvar_of (.of v) hk, hsize, hcount, read_of hv, hread]
  -- the value up to the bound of `strncpy`, and the zeros of `memset` behind it
  have hstr : StringAt varin 0 (v.take 255) := by
    have hcopied : ListAt varin 0 (v.take (min 255 v.length)) := memcpy_listAt (Nat.min_le_right ..)
    rw [← List.take_eq_take_min] at hcopied
    refine .mk' (fun h => hv (List.mem_of_mem_take h)) hcopied ?_
    rw [List.length_take, Nat.zero_add]
    have hin : min 255 v.length < 0 + (v.length + 1) := by omega
    exact (memcpy_outside (Nat.le_refl _)).trans (if_pos ⟨Nat.zero_le _, hin⟩)
  constructor
  · rintro ⟨varin', heap₁, hvar', hstr'⟩
    rw [hvar] at hvar'
    obtain ⟨hv', rfl⟩ := Prod.mk.inj (Except.ok.inj hvar')
    obtain rfl := Option.some.inj hv'
    have hlen := congrArg List.length (hstr'.unique hstr)
    rw [List.length_take] at hlen
    omega
  · intro h
    rw [List.take_of_length_le h] at hstr
    exact ⟨varin, heap', hvar, hstr⟩

/-- `cmd_cat` prints it, and ends the line. -/
def CatPrints (file : Variable) (heap : Heap) (v : List UInt8) : Prop :=
  ∃ fuel heap', catFile file heap fuel = some (0, v ++ [newline], heap')

/-- What the loop prints is as long as what is left of the file: the terminator counts
as a byte of it. -/
theorem catLoop_length {fuel offset : Nat} {out out' : List UInt8} (hv : 0 ∉ v) (hne : v ≠ [])
    (hlt : v.length + 1 < 2 ^ 31) (hoff : offset ≤ v.length + 1)
    (h : catLoop (.of v) (v.length + 1) fuel offset buffer out = some out') :
    out'.length + offset = out.length + (v.length + 1) := by
  induction fuel generalizing offset buffer out with
  | zero => exact nomatch h
  | succ fuel ih =>
      rw [catLoop] at h
      by_cases hlast : offset < v.length + 1
      · rw [if_pos hlast] at h
        dsimp only at h
        generalize htr : (if chunk < v.length + 1 - offset then chunk else v.length + 1 - offset) =
          toRead at h
        have hbounds : 0 < toRead ∧ toRead ≤ v.length + 1 - offset := by
          unfold chunk at htr
          grind
        rw [read_of hv] at h
        dsimp only at h
        have hpos := List.length_pos_iff.mpr hne
        have hr : 0 < readable v toRead ∧ readable v toRead ≤ toRead := by
          have hcount : intCount toRead = toRead := if_pos (by omega)
          rw [readable, hcount]
          exact ⟨lt_min hbounds.1 hpos, Nat.min_le_left ..⟩
        have hret : (UInt32.ofNat (readable v toRead)).toNat = readable v toRead :=
          UInt32.toNat_ofNat_of_lt' (by show _ < 2 ^ 32; omega)
        have hnz : UInt32.ofNat (readable v toRead) ≠ 0 := by
          intro h0
          rw [h0] at hret
          exact absurd hret.symm (Nat.ne_of_gt hr.1)
        rw [if_neg hnz, hret, Nat.mod_eq_of_lt (by omega)] at h
        have hrest := ih (by omega) h
        rw [List.length_append, List.length_map, List.length_range] at hrest
        omega
      · rw [if_neg hlast] at h
        obtain rfl := Option.some.inj h
        omega

theorem catPrints_iff (hv : 0 ∉ v) (hlt : v.length + 1 < 2 ^ 31)
    (hk : heap.kmalloc chunk = (some block, heap')) : CatPrints (.of v) heap v ↔ v = [] := by
  have hcat : ∀ fuel, catFile (.of v) heap fuel =
      (catLoop (.of v) (v.length + 1) fuel 0 block []).map fun out =>
        (0, out ++ [newline], heap') := by
    intro fuel
    have hsize : (Variable.of v).size ≠ 0 := Nat.succ_ne_zero _
    rw [catFile, if_neg hsize, hk]
    rfl
  constructor
  · rintro ⟨fuel, heap₁, h⟩
    rw [hcat] at h
    obtain ⟨out, hout, he⟩ := Option.map_eq_some_iff.mp h
    obtain rfl : out = v := (List.append_left_inj _).mp (Prod.mk.inj (Prod.mk.inj he).2).1
    by_contra hne
    have hlen := catLoop_length hv hne hlt (Nat.zero_le _) hout
    rw [List.length_nil] at hlen
    omega
  · rintro rfl
    refine ⟨1, heap', (hcat 1).trans ?_⟩
    -- the one byte that the size promises does not come
    have hfirst : (0 : Nat) < ([] : List UInt8).length + 1 := Nat.zero_lt_one
    rw [catLoop, if_pos hfirst]
    dsimp only
    rw [read_of hv]
    rfl

/-- What `Variable::write` leaves of the value in `src`. -/
theorem write_of {file : Variable} {src : Buffer} (hs : ListAt src 0 v)
    (hk : heap.kmalloc (v.length + 1) = (some block, heap')) :
    file.write heap pos src v.length = (UInt32.ofNat v.length, .of v, heap') := by
  obtain ⟨-, hlt⟩ := Heap.kmalloc_bound hk
  have hcount : intCount v.length = v.length := if_pos (by omega)
  have hmod : (v.length + 1) % 2 ^ 32 = v.length + 1 := Nat.mod_eq_of_lt (by omega)
  have hvalue : (List.range v.length).map (memcpy block 0 src 0 v.length) = v := by
    refine (List.map_congr_left fun j hj => ?_).trans hs.map_range
    have hin : 0 ≤ j ∧ j < 0 + v.length := ⟨Nat.zero_le j, by simpa using hj⟩
    rw [memcpy, if_pos hin, Nat.zero_add, Nat.sub_zero]
  rw [Variable.write, hmod, hk, hcount]
  dsimp only
  rw [hvalue]
  rfl

/-- All three, for a variable that has just been written. -/
structure GivesBack (file : Variable) (heap : Heap) (v : List UInt8) : Prop where
  getvar : GetvarGives file heap v
  read : ∀ pos size, ReadsAt file v pos size
  cat : CatPrints file heap v

/-- **What comes back of a value.**  The law holds for the empty value only: of any
other, `cmd_cat` prints more than there is.  `getvar` gives a value of up to 255 bytes,
and a read gives what it should if the value is the same at the position as at its
start, as far as the read goes, and that is no further than `strncpy`. -/
theorem variable_reads_back_iff (v : CString) (file : Variable) (src : Buffer) (heap : Heap)
    (hs : ListAt src 0 v.chars) {block₁ block₂ block₃ : Buffer} {heap₁ heap₂ heap₃ : Heap}
    (hwrite : heap.kmalloc (v.chars.length + 1) = (some block₁, heap₁))
    (hget : heap₁.kmalloc (v.chars.length + 1) = (some block₂, heap₂))
    (hcat : heap₁.kmalloc chunk = (some block₃, heap₃)) :
    let w := (file.write heap 0 src v.chars.length).2.1
    (GivesBack w heap₁ v.chars ↔ v.chars = []) ∧
      (GetvarGives w heap₁ v.chars ↔ v.chars.length ≤ 255) ∧
      (∀ pos size, ReadsAt w v.chars pos size ↔
        wanted v.chars pos size = v.chars.take (intCount size) ∧
          readable v.chars size ≤ 255) := by
  obtain ⟨-, hlt⟩ := Heap.kmalloc_bound hwrite
  have hgetvar := getvar_iff v.noNul hget
  have hread : ∀ pos size, ReadsAt (.of v.chars) v.chars pos size ↔
      wanted v.chars pos size = v.chars.take (intCount size) ∧ readable v.chars size ≤ 255 :=
    fun pos size => readsAt_iff v.noNul (by omega)
  have hprint := catPrints_iff v.noNul (by omega) hcat
  intro w
  have hw : w = .of v.chars := congrArg (·.2.1) (write_of hs hwrite)
  rw [hw]
  refine ⟨⟨fun h => hprint.mp h.cat, fun h => ⟨hgetvar.mpr ?_, fun pos size => ?_, hprint.mpr h⟩⟩,
    hgetvar, hread⟩
  · rw [h]
    exact Nat.zero_le _
  · refine (hread pos size).mpr ?_
    rw [h, wanted, readable, List.drop_nil, List.take_nil, List.take_nil]
    exact ⟨rfl, Nat.le_trans (Nat.min_le_right ..) (Nat.zero_le _)⟩

/-- `a`, written to a variable without a value. -/
def letterA : CString := ⟨[0x61], by decide⟩

def writtenA : UInt32 × Variable × Heap :=
  Variable.write { value := none, size := 0 } richHeap 0 (fun _ => 0x61) letterA.chars.length

theorem cat_prints_twice : ¬GivesBack writtenA.2.1 writtenA.2.2 letterA.chars := by
  intro h
  exact absurd ((catPrints_iff letterA.noNul (by decide) rfl).mp h.cat) (by decide)

theorem variable_reads_back_a :
    GetvarGives writtenA.2.1 writtenA.2.2 letterA.chars ∧
      ReadsAt writtenA.2.1 letterA.chars 0 2 := by
  have h := variable_reads_back_iff letterA { value := none, size := 0 } (fun _ => 0x61) richHeap
    ⟨rfl, trivial⟩ rfl rfl rfl
  exact ⟨h.2.1.mpr (by decide), (h.2.2 0 2).mpr (by decide)⟩

end Readers

end KmOS
