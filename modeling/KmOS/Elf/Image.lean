/-
# `KmOS.Elf.Image` — what `load_elf` leaves in memory

For a well formed file (`WellFormed`) each range of a `PT_LOAD` header holds the bytes
of the file and zeros behind them, and all other memory is as it was.

The induction is over the header table, and the invariant is that sentence for the
headers that have been passed (`Loaded`).  It gives back the file as it was, because no
range meets the file: so each header still says what it said at first, and each copy
reads the bytes of the file.  A later segment leaves an earlier one alone because their
ranges do not meet.

That no range meets the file is not a condition on the file.  The caller reads it into
the kernel heap, which is below `USER_OFFSET` (`notMet_of_outside`).

The process, whose bounds `load_elf` notes, is apart from memory in the model; `noted` is
what becomes of it.
-/
import KmOS.Elf.UserMemory

namespace KmOS

/-- The `n` addresses from `base` on. -/
def Cells (base : UInt32) (n : Nat) (a : UInt32) : Prop := ∃ k < n, a = base + UInt32.ofNat k

instance (base : UInt32) (n : Nat) : DecidablePred (Cells base n) := by
  intro a
  unfold Cells
  infer_instance

/-- Offsets below 2^32 are different addresses. -/
theorem offset_injective {base : UInt32} {j k : Nat} (hj : j < 4294967296) (hk : k < 4294967296)
    (h : base + UInt32.ofNat j = base + UInt32.ofNat k) : j = k := by
  have hval := congrArg UInt32.toNat ((UInt32.add_right_inj base).mp h)
  rwa [UInt32.toNat_ofNat_of_lt' hj, UInt32.toNat_ofNat_of_lt' hk] at hval

theorem cells_add {base : UInt32} {f n k : Nat} (h : f + k < n) :
    Cells base n (base + UInt32.ofNat f + UInt32.ofNat k) := by
  refine ⟨f + k, h, ?_⟩
  rw [UInt32.ofNat_add, UInt32.add_assoc]

/-! ## One segment -/

namespace Loader

variable {s t : Loader} {file e : UInt32}

/-- The range of the header at `e`. -/
def SegmentAt (m : LoggedMemory) (e : UInt32) : UInt32 → Prop := Cells (m.pVaddr e) (m.pMemsz e).toNat

theorem toInt32_count {n : UInt32} (h : n.toNat < 2 ^ 31) : n.toInt32.toInt.toNat = n.toNat := by
  have hint : n.toInt32.toInt = n.toNat := BitVec.toInt_eq_toNat_of_lt (x := n.toBitVec) (by
    show 2 * n.toNat < 2 ^ 32
    omega)
  rw [hint, Int.toNat_natCast]

/-- What the conditions on a header say to the two loops. -/
structure Plain (m : LoggedMemory) (file e : UInt32) : Prop where
  filesz_le : (m.pFilesz e).toNat ≤ (m.pMemsz e).toNat
  memsz_lt : (m.pMemsz e).toNat < 2 ^ 31
  source : ∀ k < (m.pFilesz e).toNat, ¬SegmentAt m e (file + m.pOffset e + UInt32.ofNat k)
  header : ∀ j < 32, ¬SegmentAt m e (e + UInt32.ofNat j)

variable (h : Plain t.mem file e)
include h

theorem Plain.copy_mem :
    ((t.noteBounds e).copySegment file e).mem =
      t.mem.storeRun (t.mem.pVaddr e) (fun m i => m.bytes (file + t.mem.pOffset e + i))
        (t.mem.pFilesz e).toNat 0 := by
  have hlt := Nat.lt_of_le_of_lt h.filesz_le h.memsz_lt
  show t.mem.storeRun _ _ (t.mem.pFilesz e).toInt32.toInt.toNat 0 = _
  rw [toInt32_count hlt]
  rfl

theorem Plain.copy_outside {a : UInt32} (ha : ¬SegmentAt t.mem e a) :
    ((t.noteBounds e).copySegment file e).mem.bytes a = t.mem.bytes a := by
  rw [h.copy_mem]
  refine LoggedMemory.storeRun_outside fun j hj he => ha ⟨j, Nat.lt_of_lt_of_le hj h.filesz_le, ?_⟩
  rwa [UInt32.add_zero] at he

theorem Plain.copy_inside {k : Nat} (hk : k < (t.mem.pFilesz e).toNat) :
    ((t.noteBounds e).copySegment file e).mem.bytes (t.mem.pVaddr e + UInt32.ofNat k) =
      t.mem.bytes (file + t.mem.pOffset e + UInt32.ofNat k) := by
  have hlt := Nat.lt_of_le_of_lt h.filesz_le h.memsz_lt
  have hrun := LoggedMemory.storeRun_inside (m := t.mem) (a := t.mem.pVaddr e) (i := 0)
    (v := fun m i => m.bytes (file + t.mem.pOffset e + i))
    (w := fun k => t.mem.bytes (file + t.mem.pOffset e + UInt32.ofNat k))
    (n := (t.mem.pFilesz e).toNat) (by omega) (fun m' hm' j hj => ?_) hk
  · rw [UInt32.add_zero] at hrun
    rw [h.copy_mem, hrun]
  · -- the source is not in the range, and so not among what has been stored
    rw [UInt32.zero_add]
    refine hm' _ fun i hi he => h.source j hj ⟨i, Nat.lt_of_lt_of_le hi h.filesz_le, ?_⟩
    rwa [UInt32.add_zero] at he

theorem Plain.copy_sameHeader :
    SameHeader t.mem ((t.noteBounds e).copySegment file e).mem e :=
  sameHeader_of_bytes fun j hj => h.copy_outside (h.header j hj)

/-- The `memset`, of no bytes if there is nothing to fill. -/
theorem Plain.load_mem :
    (t.loadSegment file e).mem =
      ((t.noteBounds e).copySegment file e).mem.storeRun (t.mem.pVaddr e + t.mem.pFilesz e)
        (fun _ _ => 0) ((t.mem.pMemsz e).toNat - (t.mem.pFilesz e).toNat) 0 := by
  have hsame := h.copy_sameHeader
  have hle := h.filesz_le
  unfold loadSegment fillSegment
  rw [hsame.filesz, hsame.memsz]
  split
  · next hlt =>
      have hsub : (t.mem.pMemsz e - t.mem.pFilesz e).toNat =
          (t.mem.pMemsz e).toNat - (t.mem.pFilesz e).toNat :=
        UInt32.toNat_sub_of_le _ _ (UInt32.le_iff_toNat_le.mpr hle)
      have hcount := toInt32_count (n := t.mem.pMemsz e - t.mem.pFilesz e) (by
        have := h.memsz_lt
        omega)
      show LoggedMemory.storeRun _ _ (t.mem.pMemsz e - t.mem.pFilesz e).toInt32.toInt.toNat 0 _ = _
      rw [hcount, hsub]
  · next hge =>
      rw [UInt32.lt_iff_toNat_lt] at hge
      rw [show (t.mem.pMemsz e).toNat - (t.mem.pFilesz e).toNat = 0 by omega]
      rfl

theorem Plain.load_outside {a : UInt32} (ha : ¬SegmentAt t.mem e a) :
    (t.loadSegment file e).mem.bytes a = t.mem.bytes a := by
  have hle := h.filesz_le
  rw [h.load_mem, LoggedMemory.storeRun_outside, h.copy_outside ha]
  intro j hj he
  rw [UInt32.add_zero, ← UInt32.ofNat_toNat (x := t.mem.pFilesz e)] at he
  exact ha (he ▸ cells_add (by omega))

/-- **One segment**: the bytes of the file, and zeros. -/
theorem Plain.load_inside {k : Nat} (hk : k < (t.mem.pMemsz e).toNat) :
    (t.loadSegment file e).mem.bytes (t.mem.pVaddr e + UInt32.ofNat k) =
      if k < (t.mem.pFilesz e).toNat then t.mem.bytes (file + t.mem.pOffset e + UInt32.ofNat k)
      else 0 := by
  have hle := h.filesz_le
  have hlt := h.memsz_lt
  have hfilesz := UInt32.ofNat_toNat (x := t.mem.pFilesz e)
  rw [h.load_mem]
  by_cases hkf : k < (t.mem.pFilesz e).toNat
  · rw [if_pos hkf, LoggedMemory.storeRun_outside, h.copy_inside hkf]
    intro j hj he
    rw [UInt32.add_zero, ← hfilesz, UInt32.add_assoc, ← UInt32.ofNat_add] at he
    have hoff := offset_injective (by omega) (by omega) he
    omega
  · obtain ⟨j, rfl⟩ := Nat.exists_eq_add_of_le (Nat.le_of_not_lt hkf)
    have hj : j < (t.mem.pMemsz e).toNat - (t.mem.pFilesz e).toNat := by omega
    have hrun := LoggedMemory.storeRun_inside (m := ((t.noteBounds e).copySegment file e).mem)
      (a := t.mem.pVaddr e + t.mem.pFilesz e) (i := 0) (v := fun _ _ => 0) (w := fun _ => 0)
      (by omega) (fun _ _ _ _ => rfl) hj
    rw [if_neg hkf, UInt32.ofNat_add, hfilesz, ← UInt32.add_assoc]
    rwa [UInt32.add_zero] at hrun

end Loader

/-! ## The header table -/

/-- The program header `i`. -/
def phdr (m : LoggedMemory) (file : UInt32) (i : Nat) : UInt32 :=
  file + m.ePhoff file + UInt32.ofNat (32 * i)

/-- It is one of the table, and of type `PT_LOAD`. -/
def Loads (m : LoggedMemory) (file : UInt32) (i : Nat) : Prop :=
  i < (m.ePhnum file).toNat ∧ m.pType (phdr m file i) = ptLoad

instance (m : LoggedMemory) (file : UInt32) (i : Nat) : Decidable (Loads m file i) := by
  unfold Loads
  infer_instance

/-- Its range. -/
def InSegment (m : LoggedMemory) (file : UInt32) (i : Nat) : UInt32 → Prop :=
  Loader.SegmentAt m (phdr m file i)

instance (m : LoggedMemory) (file : UInt32) (i : Nat) : DecidablePred (InSegment m file i) :=
  inferInstanceAs (DecidablePred (Cells _ _))

/-- A file of `size` bytes at `file`. -/
structure WellFormed (m : LoggedMemory) (file : UInt32) (size : Nat) : Prop where
  magic : m.IsElf file
  header : 52 ≤ size
  table : (m.ePhoff file).toNat + 32 * (m.ePhnum file).toNat ≤ size
  userOffset_le : ∀ i, Loads m file i → userOffset ≤ (m.pVaddr (phdr m file i)).toNat
  le_userStack : ∀ i, Loads m file i →
    (m.pVaddr (phdr m file i)).toNat + (m.pMemsz (phdr m file i)).toNat ≤ userStack
  filesz_le : ∀ i, Loads m file i →
    (m.pFilesz (phdr m file i)).toNat ≤ (m.pMemsz (phdr m file i)).toNat
  memsz_lt : ∀ i, Loads m file i → (m.pMemsz (phdr m file i)).toNat < 2 ^ 31
  inFile : ∀ i, Loads m file i →
    (m.pOffset (phdr m file i)).toNat + (m.pFilesz (phdr m file i)).toNat ≤ size
  apart : ∀ i j, Loads m file i → Loads m file j → i ≠ j →
    ∀ a, InSegment m file i a → ¬InSegment m file j a
  notMet : ∀ i, Loads m file i → ∀ k < size, ¬InSegment m file i (file + UInt32.ofNat k)

/-- After the first `n` headers. -/
structure Loaded (m : LoggedMemory) (file : UInt32) (n : Nat) (t : LoggedMemory) : Prop where
  segment : ∀ i < n, Loads m file i → ∀ k < (m.pMemsz (phdr m file i)).toNat,
    t.bytes (m.pVaddr (phdr m file i) + UInt32.ofNat k) =
      if k < (m.pFilesz (phdr m file i)).toNat then
        m.bytes (file + m.pOffset (phdr m file i) + UInt32.ofNat k)
      else 0
  rest : ∀ a, (∀ i < n, Loads m file i → ¬InSegment m file i a) → t.bytes a = m.bytes a

/-- The bounds noted for the process after `n` headers. -/
def noted (m : LoggedMemory) (file : UInt32) (proc : ProcessSt) : Nat → ProcessSt
  | 0 => proc
  | n + 1 =>
      if Loads m file n then
        (Loader.noteBounds { mem := m, proc := noted m file proc n } (phdr m file n)).proc
      else noted m file proc n

section Table

variable {m : LoggedMemory} {file : UInt32} {size n i : Nat} {t : Loader}

theorem phdr_add (j : Nat) :
    phdr m file i + UInt32.ofNat j = file + UInt32.ofNat ((m.ePhoff file).toNat + 32 * i + j) := by
  rw [phdr, UInt32.ofNat_add, UInt32.ofNat_add, UInt32.ofNat_toNat]
  simp only [UInt32.add_assoc]

theorem phdr_succ : phdr m file (i + 1) = phdr m file i + sizeofPhdr := by
  rw [phdr, phdr, Nat.mul_succ, UInt32.ofNat_add, ← UInt32.add_assoc]
  rfl

/-- The file is as it was. -/
theorem Loaded.file_bytes (h : WellFormed m file size) (ht : Loaded m file n t.mem) {k : Nat}
    (hk : k < size) : t.mem.bytes (file + UInt32.ofNat k) = m.bytes (file + UInt32.ofNat k) :=
  ht.rest _ fun i _ hi => h.notMet i hi k hk

theorem Loaded.ePhnum_eq (h : WellFormed m file size) (ht : Loaded m file n t.mem) :
    t.mem.ePhnum file = m.ePhnum file := by
  have hsize := h.header
  have h44 : t.mem.bytes (file + 44) = m.bytes (file + 44) := ht.file_bytes h (k := 44) (by omega)
  have h45 : t.mem.bytes (file + 44 + 1) = m.bytes (file + 44 + 1) := by
    rw [UInt32.add_assoc]
    exact ht.file_bytes h (k := 45) (by omega)
  unfold LoggedMemory.ePhnum LoggedMemory.load16
  rw [h44, h45]

theorem Loaded.eEntry_eq (h : WellFormed m file size) (ht : Loaded m file n t.mem) :
    t.mem.eEntry file = m.eEntry file := by
  have hsize := h.header
  refine Loader.load32_congr fun k hk => ?_
  rw [show (24 : UInt32) = UInt32.ofNat 24 from rfl, UInt32.add_assoc, ← UInt32.ofNat_add]
  exact ht.file_bytes h (by omega)

theorem Loaded.sameHeader (h : WellFormed m file size) (ht : Loaded m file n t.mem)
    (hi : i < (m.ePhnum file).toNat) : SameHeader m t.mem (phdr m file i) := by
  have htable := h.table
  refine Loader.sameHeader_of_bytes fun j hj => ?_
  rw [phdr_add]
  exact ht.file_bytes h (by omega)

/-- The header that comes next is loaded as the file says. -/
theorem Loaded.plain (h : WellFormed m file size) (ht : Loaded m file n t.mem)
    (hi : Loads m file i) : Loader.Plain t.mem file (phdr m file i) := by
  have hsame := ht.sameHeader h hi.1
  have htable := h.table
  have hsegment : Loader.SegmentAt t.mem (phdr m file i) = InSegment m file i := by
    unfold InSegment Loader.SegmentAt
    rw [hsame.vaddr, hsame.memsz]
  constructor
  · rw [hsame.filesz, hsame.memsz]
    exact h.filesz_le i hi
  · rw [hsame.memsz]
    exact h.memsz_lt i hi
  · intro k hk
    have hin := h.inFile i hi
    rw [hsame.filesz] at hk
    rw [hsegment, hsame.offset, ← UInt32.ofNat_toNat (x := m.pOffset (phdr m file i)),
      UInt32.add_assoc, ← UInt32.ofNat_add]
    exact h.notMet i hi _ (by omega)
  · intro j hj
    have hlt := hi.1
    rw [hsegment, phdr_add]
    exact h.notMet i hi _ (by omega)

/-- A file outside user memory, as one in the kernel heap is, is not met by a range that
the loader accepts. -/
theorem notMet_of_outside (hout : ∀ k < size, ¬UserMemory (file + UInt32.ofNat k))
    (hlo : userOffset ≤ (m.pVaddr (phdr m file i)).toNat)
    (hhi : (m.pVaddr (phdr m file i)).toNat + (m.pMemsz (phdr m file i)).toNat ≤ userStack)
    {k : Nat} (hk : k < size) : ¬InSegment m file i (file + UInt32.ofNat k) := by
  rintro ⟨j, hj, he⟩
  refine hout k hk ?_
  have hval := toNat_add_ofNat (a := m.pVaddr (phdr m file i)) (j := j)
    (Nat.lt_of_lt_of_le (Nat.add_lt_add_left hj _) (Nat.le_trans hhi (by decide)))
  have hbounds : userOffset32.toNat = userOffset ∧ userStack32.toNat = userStack := ⟨rfl, rfl⟩
  rw [he]
  refine ⟨UInt32.le_iff_toNat_le.mpr ?_, UInt32.lt_iff_toNat_lt.mpr ?_⟩
  · rw [hval, hbounds.1]
    omega
  · rw [hval, hbounds.2]
    omega

/-! ### One header -/

theorem Loaded.skip (ht : Loaded m file n t.mem) (hn : ¬Loads m file n) :
    Loaded m file (n + 1) t.mem := by
  have hlt : ∀ i < n + 1, Loads m file i → i < n := by
    intro i hi hl
    rcases Nat.lt_succ_iff_lt_or_eq.mp hi with hlt | rfl
    · exact hlt
    · exact absurd hl hn
  exact ⟨fun i hi hl => ht.segment i (hlt i hi hl) hl,
    fun a ha => ht.rest a fun i hi => ha i (Nat.lt_succ_of_lt hi)⟩

theorem Loaded.load (h : WellFormed m file size) (ht : Loaded m file n t.mem)
    (hn : Loads m file n) : Loaded m file (n + 1) (t.loadSegment file (phdr m file n)).mem := by
  have hplain := ht.plain h hn
  have hsame := ht.sameHeader h hn.1
  have hsegment : Loader.SegmentAt t.mem (phdr m file n) = InSegment m file n := by
    unfold InSegment Loader.SegmentAt
    rw [hsame.vaddr, hsame.memsz]
  have houtside : ∀ a, ¬InSegment m file n a →
      (t.loadSegment file (phdr m file n)).mem.bytes a = t.mem.bytes a :=
    fun a ha => hplain.load_outside (hsegment ▸ ha)
  constructor
  · intro i hi hl k hk
    rcases Nat.lt_succ_iff_lt_or_eq.mp hi with hlt | rfl
    · -- an earlier segment
      rw [houtside _ (h.apart i n hl hn (Nat.ne_of_lt hlt) _ ⟨k, hk, rfl⟩)]
      exact ht.segment i hlt hl k hk
    · have hin := h.inFile i hl
      have hload := hplain.load_inside (hsame.memsz ▸ hk)
      rw [hsame.vaddr, hsame.filesz, hsame.offset] at hload
      rw [hload]
      split
      · next hkf =>
          rw [← UInt32.ofNat_toNat (x := m.pOffset (phdr m file i)), UInt32.add_assoc,
            ← UInt32.ofNat_add]
          exact ht.file_bytes h (by omega)
      · rfl
  · intro a ha
    rw [houtside a (ha n (Nat.lt_succ_self n) hn)]
    exact ht.rest a fun i hi => ha i (Nat.lt_succ_of_lt hi)

theorem Loaded.rangeOk (h : WellFormed m file size) (ht : Loaded m file n t.mem)
    (hn : Loads m file n) : t.RangeOk (phdr m file n) := by
  have hsame := ht.sameHeader h hn.1
  have hlo := h.userOffset_le n hn
  have hhi := h.le_userStack n hn
  have hstack : userStack32.toNat = userStack := rfl
  unfold Loader.RangeOk
  rw [hsame.vaddr, hsame.memsz, UInt32.le_iff_toNat_le, UInt32.le_iff_toNat_le, UInt32.toNat_add,
    hstack, Nat.mod_eq_of_lt (Nat.lt_of_le_of_lt hhi (by decide))]
  exact ⟨hlo, hhi⟩

theorem loadSegment_proc (e : UInt32) : (t.loadSegment file e).proc = (t.noteBounds e).proc := by
  unfold Loader.loadSegment Loader.fillSegment
  split <;> rfl

/-- The bounds come from the header and the process. -/
theorem noteBounds_proc {e : UInt32} (h : SameHeader m t.mem e) :
    (t.noteBounds e).proc = (Loader.noteBounds { mem := m, proc := t.proc } e).proc := by
  unfold Loader.noteBounds
  dsimp only
  rw [h.flags, h.vaddr, h.memsz]

/-! ### All headers -/

theorem loadLoop_loaded (h : WellFormed m file size) (ht : Loaded m file n t.mem)
    {proc : ProcessSt} (hproc : t.proc = noted m file proc n) {fuel : Nat}
    (hn : n ≤ (m.ePhnum file).toNat) (hfuel : (m.ePhnum file).toNat ≤ n + fuel) :
    ∃ t', Loader.loadLoop file fuel n (phdr m file n) t = (true, t') ∧
      Loaded m file (m.ePhnum file).toNat t'.mem ∧
      t'.proc = noted m file proc (m.ePhnum file).toNat := by
  induction fuel generalizing n t with
  | zero =>
      obtain rfl : n = (m.ePhnum file).toNat := Nat.le_antisymm hn hfuel
      exact ⟨t, rfl, ht, hproc⟩
  | succ fuel ih =>
      rw [Loader.loadLoop, ht.ePhnum_eq h, ← phdr_succ]
      by_cases hlt : n < (m.ePhnum file).toNat
      · have hsame := ht.sameHeader h hlt
        rw [if_pos hlt, hsame.type]
        by_cases htype : m.pType (phdr m file n) = ptLoad
        · have hl : Loads m file n := ⟨hlt, htype⟩
          rw [if_pos htype, if_pos (ht.rangeOk h hl)]
          refine ih (ht.load h hl) ?_ hlt (by omega)
          rw [loadSegment_proc, noteBounds_proc hsame, hproc, noted, if_pos hl]
        · have hl : ¬Loads m file n := fun hl => htype hl.2
          rw [if_neg htype]
          refine ih (ht.skip hl) ?_ hlt (by omega)
          rw [hproc, noted, if_neg hl]
      · rw [if_neg hlt]
        obtain rfl : n = (m.ePhnum file).toNat := Nat.le_antisymm hn (Nat.le_of_not_lt hlt)
        exact ⟨t, rfl, ht, hproc⟩

end Table

/-- **The image**: `load_elf` returns the entry point, each range holds the bytes of the
file and zeros behind them, and no other byte has changed; of the process it has noted
the bounds that the headers give. -/
theorem loadElf_image (s : Loader) (file : UInt32) (size : Nat) (h : WellFormed s.mem file size) :
    (s.loadElf file).1 = s.mem.eEntry file ∧
      (∀ i, Loads s.mem file i → ∀ k < (s.mem.pMemsz (phdr s.mem file i)).toNat,
        (s.loadElf file).2.mem.bytes (s.mem.pVaddr (phdr s.mem file i) + UInt32.ofNat k) =
          if k < (s.mem.pFilesz (phdr s.mem file i)).toNat then
            s.mem.bytes (file + s.mem.pOffset (phdr s.mem file i) + UInt32.ofNat k)
          else 0) ∧
      (∀ a, (∀ i, Loads s.mem file i → ¬InSegment s.mem file i a) →
        (s.loadElf file).2.mem.bytes a = s.mem.bytes a) ∧
      (s.loadElf file).2.proc = noted s.mem file s.proc (s.mem.ePhnum file).toNat := by
  have hstart : Loaded s.mem file 0 s.mem :=
    ⟨fun i hi => absurd hi (Nat.not_lt_zero i), fun a _ => rfl⟩
  have hphdr : phdr s.mem file 0 = file + s.mem.ePhoff file := UInt32.add_zero _
  have hlimit : (s.mem.ePhnum file).toNat ≤ 0 + Loader.phnumLimit :=
    Nat.zero_add _ ▸ Nat.le_of_lt (s.mem.ePhnum file).toNat_lt
  obtain ⟨t, hloop, ht, hproc⟩ := loadLoop_loaded h hstart rfl (Nat.zero_le _) hlimit
  have hload : s.loadElf file = (t.mem.eEntry file, t) := by
    rw [Loader.loadElf, if_pos h.magic, ← hphdr, hloop]
  rw [hload]
  exact ⟨ht.eEntry_eq h, fun i hi => ht.segment i hi.1 hi,
    fun a ha => ht.rest a fun i _ hi => ha i hi, hproc⟩

/-! ### A file of one segment -/

/-- Two bytes of the file, and two zeros. -/
def smallElf : Loader := fileLoader (oneSegmentFile 0x40001000 2 4)

theorem smallElf_phnum : (smallElf.mem.ePhnum 0x200000).toNat = 1 := by decide +kernel

theorem smallElf_loads {i : Nat} (h : Loads smallElf.mem 0x200000 i) : i = 0 :=
  Nat.lt_one_iff.mp (smallElf_phnum ▸ h.1)

theorem smallElf_wellFormed : WellFormed smallElf.mem 0x200000 84 := by
  have hlo : ∀ i, Loads smallElf.mem 0x200000 i →
      userOffset ≤ (smallElf.mem.pVaddr (phdr smallElf.mem 0x200000 i)).toNat := by
    intro i hi
    rw [smallElf_loads hi]
    decide +kernel
  have hhi : ∀ i, Loads smallElf.mem 0x200000 i →
      (smallElf.mem.pVaddr (phdr smallElf.mem 0x200000 i)).toNat +
        (smallElf.mem.pMemsz (phdr smallElf.mem 0x200000 i)).toNat ≤ userStack := by
    intro i hi
    rw [smallElf_loads hi]
    decide +kernel
  refine ⟨by decide +kernel, by decide, by decide +kernel, hlo, hhi, ?_, ?_, ?_, ?_, ?_⟩
  · intro i hi
    rw [smallElf_loads hi]
    decide +kernel
  · intro i hi
    rw [smallElf_loads hi]
    decide +kernel
  · intro i hi
    rw [smallElf_loads hi]
    decide +kernel
  · intro i j hi hj hij
    exact absurd ((smallElf_loads hi).trans (smallElf_loads hj).symm) hij
  · intro i hi k hk
    exact notMet_of_outside (by decide +kernel) (hlo i hi) (hhi i hi) hk

theorem loadElf_image_smallElf :
    (smallElf.loadElf 0x200000).1 = smallElf.mem.eEntry 0x200000 ∧
      (smallElf.loadElf 0x200000).2.mem.bytes 0x40000FFF = smallElf.mem.bytes 0x40000FFF := by
  have h := loadElf_image smallElf 0x200000 84 smallElf_wellFormed
  refine ⟨h.1, h.2.2.1 0x40000FFF fun i hi => ?_⟩
  rw [smallElf_loads hi]
  decide +kernel

end KmOS
