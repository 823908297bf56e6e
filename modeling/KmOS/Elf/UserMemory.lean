/-
# `KmOS.Elf.UserMemory` — loading a file writes user memory

The check of a segment is about `p_vaddr` and `p_vaddr + p_memsz`, and the sum
may wrap around; what is written is `p_filesz` bytes at `p_vaddr` and, behind
them, the rest of `p_memsz`.  So whether all writes lie in user memory is
another condition, `SegmentFits`, on each segment that passes the check.
-/
import KmOS.Elf.Model

namespace KmOS

/-- An address of user memory. -/
def UserMemory : UInt32 → Prop := Between userOffset32 userStack32

instance : DecidablePred UserMemory := inferInstanceAs (DecidablePred (Between _ _))

/-- `n` bytes from `a` on are in user memory; a negative `n` is none. -/
def RunFits (a : UInt32) (n : Int32) : Prop :=
  n.toInt ≤ 0 ∨ (userOffset32 ≤ a ∧ a.toNat + n.toInt.toNat ≤ userStack32.toNat)

instance (a : UInt32) (n : Int32) : Decidable (RunFits a n) := by
  unfold RunFits
  infer_instance

/-- The loops of `memcpy` and `memset`. -/
theorem only_run_iff {m : LoggedMemory} {a : UInt32} {v : LoggedMemory → UInt32 → UInt8} {n : Int32} :
    (m.storeRun a v n.toInt.toNat 0).Only UserMemory ↔ m.Only UserMemory ∧ RunFits a n := by
  rw [LoggedMemory.only_storeRun, UInt32.add_zero]
  refine and_congr_right fun _ => run_between_iff.trans ?_
  exact or_congr_left Int.toNat_eq_zero

/-- The header at `e` reads as in `m`. -/
structure SameHeader (m m' : LoggedMemory) (e : UInt32) : Prop where
  type : m'.pType e = m.pType e
  offset : m'.pOffset e = m.pOffset e
  vaddr : m'.pVaddr e = m.pVaddr e
  filesz : m'.pFilesz e = m.pFilesz e
  memsz : m'.pMemsz e = m.pMemsz e
  flags : m'.pFlags e = m.pFlags e

namespace Loader

variable {s : Loader} {file e : UInt32}

/-! ## One segment -/

/-- The copy fits, and then the fill, as far as there is one. -/
def SegmentFits (s : Loader) (file e : UInt32) : Prop :=
  RunFits (s.mem.pVaddr e) (s.mem.pFilesz e).toInt32 ∧
    let m := ((s.noteBounds e).copySegment file e).mem
    m.pFilesz e < m.pMemsz e →
      RunFits (s.mem.pVaddr e + m.pFilesz e) (m.pMemsz e - m.pFilesz e).toInt32

instance (s : Loader) (file e : UInt32) : Decidable (s.SegmentFits file e) := by
  unfold SegmentFits
  infer_instance

theorem loadSegment_only_iff (hm : s.mem.Only UserMemory) :
    (s.loadSegment file e).mem.Only UserMemory ↔ s.SegmentFits file e := by
  have hcopy : ((s.noteBounds e).copySegment file e).mem.Only UserMemory ↔
      s.mem.Only UserMemory ∧ RunFits (s.mem.pVaddr e) (s.mem.pFilesz e).toInt32 := only_run_iff
  unfold loadSegment SegmentFits fillSegment
  generalize (s.noteBounds e).copySegment file e = t at hcopy ⊢
  dsimp only
  split
  · next hlt =>
      refine only_run_iff.trans ?_
      rw [hcopy, and_iff_right hm]
      exact and_congr_right fun _ => ⟨fun h _ => h, fun h => h hlt⟩
  · next hge =>
      rw [hcopy, and_iff_right hm]
      exact (and_iff_left fun hlt => absurd hlt hge).symm

/-! ## All segments -/

/-- Every segment fits that the loop comes to and does not reject. -/
def SegmentsFit (file : UInt32) : Nat → Nat → UInt32 → Loader → Prop
  | 0, _, _, _ => True
  | fuel + 1, i, e, s =>
      i < (s.mem.ePhnum file).toNat →
        if s.mem.pType e = ptLoad then
          s.RangeOk e → s.SegmentFits file e ∧
            SegmentsFit file fuel (i + 1) (e + sizeofPhdr) (s.loadSegment file e)
        else SegmentsFit file fuel (i + 1) (e + sizeofPhdr) s

/-- What a segment wrote before stays written. -/
theorem only_of_loadSegment {P : UInt32 → Prop} (h : (s.loadSegment file e).mem.Only P) :
    s.mem.Only P := by
  have hcopy : ((s.noteBounds e).copySegment file e).mem.Only P → s.mem.Only P :=
    fun h => (LoggedMemory.only_storeRun.mp h).1
  unfold loadSegment fillSegment at h
  split at h
  · exact hcopy (LoggedMemory.only_storeRun.mp h).1
  · exact hcopy h

theorem only_of_loadLoop {fuel i : Nat} {P : UInt32 → Prop}
    (h : (loadLoop file fuel i e s).2.mem.Only P) : s.mem.Only P := by
  induction fuel generalizing i e s with
  | zero => exact h
  | succ fuel ih =>
      unfold loadLoop at h
      split at h
      · split at h
        · split at h
          · exact only_of_loadSegment (ih h)
          · exact h
        · exact ih h
      · exact h

theorem loadLoop_only_iff {fuel i : Nat} (hm : s.mem.Only UserMemory) :
    (loadLoop file fuel i e s).2.mem.Only UserMemory ↔ SegmentsFit file fuel i e s := by
  induction fuel generalizing i e s with
  | zero => exact iff_of_true hm True.intro
  | succ fuel ih =>
      unfold loadLoop SegmentsFit
      split
      · next hi =>
          rw [forall_prop_of_true hi]
          split
          · split
            · next hok =>
                rw [forall_prop_of_true hok]
                constructor
                · intro h
                  have hseg := only_of_loadLoop h
                  exact ⟨(loadSegment_only_iff hm).mp hseg, (ih hseg).mp h⟩
                · rintro ⟨hfit, hrest⟩
                  exact (ih ((loadSegment_only_iff hm).mpr hfit)).mpr hrest
            · next hno => exact iff_of_true hm fun hok => absurd hok hno
          · exact ih hm
      · next hi => exact iff_of_true hm fun h => absurd h hi

/-- The loop of `load_elf` ends by its test: one turn more changes nothing. -/
theorem loadLoop_ends {fuel i : Nat} (hfuel : phnumLimit ≤ i + fuel) :
    loadLoop file (fuel + 1) i e s = loadLoop file fuel i e s := by
  induction fuel generalizing i e s with
  | zero =>
      have hlt := (s.mem.ePhnum file).toNat_lt
      exact if_neg fun hi => Nat.not_lt.mpr hfuel (Nat.lt_trans hi hlt)
  | succ fuel ih =>
      have hnext : phnumLimit ≤ i + 1 + fuel := by omega
      unfold loadLoop
      rw [ih hnext, ih hnext]

/-! ## Headers outside user memory

If the headers are not in user memory, as in a file that was read into the
kernel heap, then what is loaded does not change them, and they are the ones of
the file. -/

/-- Memory outside user memory is as it was. -/
def Untouched (s t : Loader) : Prop := ∀ a, ¬ UserMemory a → t.mem.bytes a = s.mem.bytes a

/-- The file header and `n` program headers from `e` on are not in user memory. -/
structure HeadersOutside (file e : UInt32) (n : Nat) : Prop where
  header : ∀ j < 52, ¬ UserMemory (file + UInt32.ofNat j)
  segments : ∀ j < 32 * n, ¬ UserMemory (e + UInt32.ofNat j)

/-- The program header at `e`, as it stands in the file, fits. -/
def HeaderFits (s : Loader) (e : UInt32) : Prop :=
  RunFits (s.mem.pVaddr e) (s.mem.pFilesz e).toInt32 ∧
    (s.mem.pFilesz e < s.mem.pMemsz e →
      RunFits (s.mem.pVaddr e + s.mem.pFilesz e) (s.mem.pMemsz e - s.mem.pFilesz e).toInt32)

/-- All headers fit up to the first one that is rejected. -/
def HeadersFit (s : Loader) : Nat → UInt32 → Prop
  | 0, _ => True
  | n + 1, e =>
      if s.mem.pType e = ptLoad then
        s.RangeOk e → s.HeaderFits e ∧ HeadersFit s n (e + sizeofPhdr)
      else HeadersFit s n (e + sizeofPhdr)

theorem load32_congr {m m' : LoggedMemory} {a : UInt32}
    (h : ∀ k < 4, m'.bytes (a + UInt32.ofNat k) = m.bytes (a + UInt32.ofNat k)) :
    m'.load32 a = m.load32 a := by
  have h0 := h 0 (by decide)
  rw [show UInt32.ofNat 0 = 0 from rfl, UInt32.add_zero] at h0
  have h1 : m'.bytes (a + 1) = m.bytes (a + 1) := h 1 (by decide)
  have h2 : m'.bytes (a + 2) = m.bytes (a + 2) := h 2 (by decide)
  have h3 : m'.bytes (a + 3) = m.bytes (a + 3) := h 3 (by decide)
  unfold LoggedMemory.load32
  rw [h0, h1, h2, h3]

theorem sameHeader_of_bytes {m m' : LoggedMemory} {e : UInt32}
    (h : ∀ j < 32, m'.bytes (e + UInt32.ofNat j) = m.bytes (e + UInt32.ofNat j)) :
    SameHeader m m' e := by
  have hfield : ∀ k, k + 4 ≤ 32 →
      m'.load32 (e + UInt32.ofNat k) = m.load32 (e + UInt32.ofNat k) := by
    intro k hk
    refine load32_congr fun j hj => ?_
    rw [UInt32.add_assoc, ← UInt32.ofNat_add]
    exact h (k + j) (by omega)
  have hfirst := hfield 0 (by decide)
  rw [show UInt32.ofNat 0 = 0 from rfl, UInt32.add_zero] at hfirst
  exact ⟨hfirst, hfield 4 (by decide), hfield 8 (by decide), hfield 16 (by decide),
    hfield 20 (by decide), hfield 24 (by decide)⟩

/-- A program header that is not in user memory. -/
theorem Untouched.sameHeader {t : Loader} (h : Untouched s t)
    (hout : ∀ j < 32, ¬ UserMemory (e + UInt32.ofNat j)) : SameHeader s.mem t.mem e :=
  sameHeader_of_bytes fun j hj => h _ (hout j hj)

theorem Untouched.phnum {t : Loader} (h : Untouched s t)
    (hout : ∀ j < 52, ¬ UserMemory (file + UInt32.ofNat j)) :
    t.mem.ePhnum file = s.mem.ePhnum file := by
  have h44 : t.mem.bytes (file + 44) = s.mem.bytes (file + 44) := h _ (hout 44 (by decide))
  have h45 : t.mem.bytes (file + 44 + 1) = s.mem.bytes (file + 44 + 1) := by
    rw [UInt32.add_assoc]
    exact h _ (hout 45 (by decide))
  unfold LoggedMemory.ePhnum LoggedMemory.load16
  rw [h44, h45]

/-- Writes to user memory leave the rest as it was. -/
theorem Untouched.run {t t' : Loader} {a : UInt32} {v : LoggedMemory → UInt32 → UInt8} {n : Nat}
    (h : Untouched s t) (hrun : t'.mem = t.mem.storeRun a v n 0) (hm : t'.mem.Only UserMemory) :
    Untouched s t' := by
  intro b hb
  rw [hrun] at hm ⊢
  exact (LoggedMemory.storeRun_frame fun hmem => hb (hm b hmem)).trans (h b hb)

theorem Untouched.copySegment {t : Loader} (h : Untouched s t)
    (hm : ((t.noteBounds e).copySegment file e).mem.Only UserMemory) :
    Untouched s ((t.noteBounds e).copySegment file e) := h.run rfl hm

theorem Untouched.loadSegment {t : Loader} (h : Untouched s t)
    (hm : (t.loadSegment file e).mem.Only UserMemory) : Untouched s (t.loadSegment file e) := by
  unfold Loader.loadSegment Loader.fillSegment at hm ⊢
  split at hm
  · next hlt =>
      rw [if_pos hlt]
      exact (h.copySegment (LoggedMemory.only_storeRun.mp hm).1).run rfl hm
  · next hge =>
      rw [if_neg hge]
      exact h.copySegment hm

theorem Untouched.segmentFits_iff {t : Loader} (h : Untouched s t) (hm : t.mem.Only UserMemory)
    (hout : ∀ j < 32, ¬ UserMemory (e + UInt32.ofNat j)) :
    t.SegmentFits file e ↔ s.HeaderFits e := by
  have hsame := h.sameHeader hout
  unfold SegmentFits HeaderFits
  rw [hsame.vaddr, hsame.filesz]
  refine and_congr_right fun hcopy => ?_
  have hcopied : ((t.noteBounds e).copySegment file e).mem.Only UserMemory := by
    rw [← hsame.vaddr, ← hsame.filesz] at hcopy
    exact only_run_iff.mpr ⟨hm, hcopy⟩
  have hsame' := (h.copySegment hcopied).sameHeader hout
  dsimp only
  rw [hsame'.filesz, hsame'.memsz]

/-- The condition on the headers the loop comes to is one on those of the file. -/
theorem Untouched.segmentsFit_iff {t : Loader} {fuel i n : Nat} (h : Untouched s t)
    (hm : t.mem.Only UserMemory) (hn : (s.mem.ePhnum file).toNat = i + n)
    (hout : HeadersOutside file e n) (hfuel : n ≤ fuel) :
    SegmentsFit file fuel i e t ↔ s.HeadersFit n e := by
  induction n generalizing t e i fuel with
  | zero =>
      refine iff_of_true ?_ True.intro
      cases fuel with
      | zero => exact True.intro
      | succ fuel =>
          intro hi
          rw [h.phnum hout.header, hn] at hi
          exact absurd hi (Nat.lt_irrefl i)
  | succ n ih =>
      obtain ⟨fuel, rfl⟩ := Nat.exists_eq_succ_of_ne_zero (Nat.ne_zero_of_lt hfuel)
      have hfirst : ∀ j < 32, ¬ UserMemory (e + UInt32.ofNat j) :=
        fun j hj => hout.segments j (by omega)
      have hrest : HeadersOutside file (e + sizeofPhdr) n := by
        refine ⟨hout.header, fun j hj => ?_⟩
        rw [UInt32.add_assoc]
        have hsum : sizeofPhdr + UInt32.ofNat j = UInt32.ofNat (32 + j) := (UInt32.ofNat_add 32 j).symm
        rw [hsum]
        exact hout.segments (32 + j) (by omega)
      have hstep {t : Loader} (h : Untouched s t) (hm : t.mem.Only UserMemory) :
          SegmentsFit file fuel (i + 1) (e + sizeofPhdr) t ↔ s.HeadersFit n (e + sizeofPhdr) :=
        ih h hm (by omega) hrest (Nat.le_of_succ_le_succ hfuel)
      have hi : i < (t.mem.ePhnum file).toNat := by
        rw [h.phnum hout.header, hn]
        omega
      have hsame := h.sameHeader hfirst
      have hrange : t.RangeOk e ↔ s.RangeOk e := by
        unfold RangeOk
        rw [hsame.vaddr, hsame.memsz]
      unfold SegmentsFit HeadersFit
      rw [forall_prop_of_true hi, hsame.type]
      split
      · refine imp_congr hrange ?_
        rw [h.segmentFits_iff hm hfirst]
        refine and_congr_right fun hfit => hstep (h.loadSegment ?_) ?_
        · exact (loadSegment_only_iff hm).mpr ((h.segmentFits_iff hm hfirst).mpr hfit)
        · exact (loadSegment_only_iff hm).mpr ((h.segmentFits_iff hm hfirst).mpr hfit)
      · exact hstep h hm

end Loader

/-! ## The result -/

theorem Loader.loadElf_only_iff {s : Loader} (file : UInt32) (hm : s.mem.Only UserMemory) :
    (s.loadElf file).2.mem.Only UserMemory ↔
      (s.mem.IsElf file → SegmentsFit file phnumLimit 0 (file + s.mem.ePhoff file) s) := by
  unfold loadElf
  split
  · next helf =>
      rw [forall_prop_of_true helf, ← loadLoop_only_iff hm]
      generalize loadLoop file _ _ _ s = r
      obtain ⟨ok, t⟩ := r
      cases ok with
      | false => exact Iff.rfl
      | true => exact Iff.rfl
  · next hno => exact iff_of_true hm fun h => absurd h hno

/-- **Loading writes user memory only**, exactly if every segment that is loaded
fits; and if the headers are not in user memory themselves, exactly if those of
the file do, up to the first one that is rejected. -/
theorem load_elf_writes_user_memory_iff (bytes : UInt32 → UInt8) (proc : ProcessSt) (file : UInt32) :
    let s : Loader := { mem := { bytes := bytes, written := [] }, proc := proc }
    let e := file + s.mem.ePhoff file
    let n := (s.mem.ePhnum file).toNat
    ((s.loadElf file).2.mem.Only UserMemory ↔
      (s.mem.IsElf file → Loader.SegmentsFit file Loader.phnumLimit 0 e s)) ∧
    (Loader.HeadersOutside file e n →
      ((s.loadElf file).2.mem.Only UserMemory ↔ (s.mem.IsElf file → s.HeadersFit n e))) := by
  intro s e n
  have hm : s.mem.Only UserMemory := List.forall_mem_nil _
  have hiff := Loader.loadElf_only_iff file hm
  refine ⟨hiff, fun hout => hiff.trans (imp_congr_right fun _ => ?_)⟩
  have hsame : Loader.Untouched s s := fun _ _ => rfl
  exact hsame.segmentsFit_iff hm (Nat.zero_add n).symm hout
    (Nat.le_of_lt (s.mem.ePhnum file).toNat_lt)

/-! ### Two files of one segment -/

/-- A word, the low byte first. -/
def wordBytes (n : Nat) : List UInt8 := (List.range 4).map fun i => UInt8.ofNat (n / 256 ^ i)

/-- A file with one program header, of type `PT_LOAD`. -/
def oneSegmentFile (vaddr filesz memsz : Nat) : List UInt8 :=
  [0x7f, 0x45, 0x4c, 0x46] ++ List.replicate 20 0 ++ wordBytes vaddr ++ wordBytes 52 ++
    List.replicate 12 0 ++ [1, 0] ++ List.replicate 6 0 ++
    wordBytes 1 ++ wordBytes 0 ++ wordBytes vaddr ++ wordBytes vaddr ++ wordBytes filesz ++
    wordBytes memsz ++ wordBytes 5 ++ wordBytes 0

/-- The file in the kernel heap, before it is loaded. -/
def fileLoader (l : List UInt8) : Loader :=
  { mem := { bytes := fun a => l.getD (a - 0x200000).toNat 0, written := [] }
    proc := { bExec := 0, eExec := 0, bBss := 0, eBss := 0 } }

/-- Eight bytes in the file for four in memory, at the end of user memory; and a
segment whose end wraps around: both pass the check. -/
theorem segments_leave_user_memory :
    ((fileLoader (oneSegmentFile 0xDFFFFFFC 8 4)).loadElf 0x200000).1 = 0xDFFFFFFC ∧
      0xE0000003 ∈ ((fileLoader (oneSegmentFile 0xDFFFFFFC 8 4)).loadElf 0x200000).2.mem.written ∧
      ¬ UserMemory 0xE0000003 ∧
      ((fileLoader (oneSegmentFile 0xFFFFFFFE 0 4)).loadElf 0x200000).2.mem.written =
        [1, 0, 0xFFFFFFFF, 0xFFFFFFFE] ∧
      ¬ UserMemory 0xFFFFFFFE ∧ ¬ UserMemory 1 := by
  decide +kernel

end KmOS
