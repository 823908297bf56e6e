/-
# `KmOS.Cow.Teardown` — does a directory give back what it took?

A directory takes frames at three levels: one for itself, one for each page
table, one for each page.  `destroy_page_directory` goes over the pages and
then frees the directory's own frame; the frames of the page tables, which
`get_page_table` took, it never mentions.

## What is proved

From any state, make a directory, map freshly allocated frames at pages that
are not mapped and unmap pages, in any order and number, and destroy the
directory.  The bits set afterwards are those set before and the frames of the
page tables (`Holdings.destroy`).  So `frame_bitmap` and `frames_used` come
back exactly when there is no page table (`teardown_restores_iff`), which is
to say when nothing was ever mapped; a directory with one page leaks a frame
(`one_page_leaks_table`).

The proof keeps, along the run, the set of frames taken since the start
(`Taken`) and which of them the directory has for what (`Holdings`).  A frame
between `alloc_frame` and the entry that names it is `lost`: nobody could give
it back.
-/
import KmOS.Lib.Run
import KmOS.Cow.Effects
import KmOS.Vmm.FrameCount

namespace KmOS

open Kernel

/-! ## Statement -/

/-- The calls made on the directory. -/
inductive DirCall where
  | map (va flags : Nat)
  | unmap (va : Nat)

/-- A page is mapped, as present, where there is none. -/
def DirCall.Admissible (pd : Nat) (k : Kernel) : DirCall → Prop
  | .map va flags => flags &&& pgPresent ≠ 0 ∧ k.mapped pd (pageOf va) = none
  | .unmap _ => True

instance (pd : Nat) (k : Kernel) : (c : DirCall) → Decidable (c.Admissible pd k)
  | .map _ _ => inferInstanceAs (Decidable (_ ∧ _))
  | .unmap _ => inferInstanceAs (Decidable True)

/-- A frame from `alloc_frame` is mapped, and goes back when `map_page` fails;
or a page is unmapped. -/
def DirCall.exec (pd : Nat) (k : Kernel) : DirCall → Kernel
  | .map va flags => (mapFreshPage pd flags va k).2
  | .unmap va => k.unmapPage pd va

/-- One step: the answers of the heap during the call, and the call. -/
def dirStep (pd : Nat) (k : Kernel) (c : List Bool × DirCall) : Option Kernel :=
  if c.2.Admissible pd k then
    let k' := c.2.exec pd (k.withAnswers c.1)
    if k'.hung then none else some k'
  else none

theorem dirStep_eq_some {pd : Nat} {k k' : Kernel} {c : List Bool × DirCall}
    (h : dirStep pd k c = some k') :
    c.2.Admissible pd k ∧ k' = c.2.exec pd (k.withAnswers c.1) := by
  unfold dirStep at h
  simp only at h
  split at h
  · next ha =>
      split at h
      · exact absurd h (by simp)
      · exact ⟨ha, (Option.some.inj h).symm⟩
  · exact absurd h (by simp)

/-! ## The frames taken since the start -/

/-- The books of `k` are those of `k₀` with the frames `S`, free then, taken. -/
structure Taken (k₀ k : Kernel) (S : Finset Nat) : Prop where
  wasFree : ∀ n ∈ S, n < maxFrames ∧ k₀.used n = false
  bits : ∀ n, k.used n = (k₀.used n || decide (n ∈ S))
  count : k.framesUsed = k₀.framesUsed + BitVec.ofNat 32 S.card

section
variable {k₀ k k' : Kernel} {S : Finset Nat}

theorem Taken.refl (k : Kernel) : Taken k k ∅ :=
  ⟨by simp, by simp, by simp⟩

theorem Taken.of_books (h : Taken k₀ k S) (hb : k'.books = k.books) : Taken k₀ k' S := by
  refine ⟨h.wasFree, ?_, ?_⟩
  · intro n
    rw [used_of_books hb]
    exact h.bits n
  · exact (congrArg Prod.snd hb).trans h.count

theorem Taken.notMem_of_clear (h : Taken k₀ k S) {n : Nat} (hn : k.used n = false) : n ∉ S := by
  intro hmem
  rw [h.bits n] at hn
  simp [hmem] at hn

theorem Taken.takeFrame (h : Taken k₀ k S) {i : Nat} (hi : i < maxFrames) (hu : k.used i = false) :
    Taken k₀ (k.takeFrame i) (insert i S) := by
  have hmem := h.notMem_of_clear hu
  have hb := h.bits i
  refine ⟨?_, ?_, ?_⟩
  · intro n hn
    rcases Finset.mem_insert.mp hn with rfl | hn
    · refine ⟨hi, ?_⟩
      rw [hu] at hb
      simp only [hmem, decide_false, Bool.or_false] at hb
      exact hb.symm
    · exact h.wasFree n hn
  · intro n
    have hn := h.bits n
    simp only [used, Kernel.takeFrame, Words.testBit_setBit] at hn ⊢
    rw [hn]
    by_cases hni : n = i
    · simp [hni]
    · simp [hni]
  · simp only [Kernel.takeFrame]
    rw [h.count, Finset.card_insert_of_notMem hmem, BitVec.ofNat_add, ← BitVec.add_assoc]
    rfl

theorem Taken.freeFrame (h : Taken k₀ k S) {a : Nat} (ha : a / frameSize ∈ S) :
    Taken k₀ (k.freeFrame a) (S.erase (a / frameSize)) := by
  obtain ⟨hlt, hfree⟩ := h.wasFree _ ha
  refine ⟨?_, ?_, ?_⟩
  · intro n hn
    exact h.wasFree n (Finset.mem_of_mem_erase hn)
  · intro n
    rw [used_freeFrame, h.bits n]
    by_cases hn : n = a / frameSize
    · subst hn
      simp [hlt, hfree]
    · simp [hn]
  · have hcard := Finset.card_erase_add_one ha
    have hf : (k.freeFrame a).framesUsed = k.framesUsed - 1 := by
      unfold Kernel.freeFrame
      simp only [hlt, if_true]
    rw [hf, h.count, ← hcard, BitVec.ofNat_add, ← BitVec.add_assoc]
    exact BitVec.add_sub_cancel _ _

/-- Frames of the set, none twice, are given back. -/
theorem Taken.freeFrames : ∀ (l : List Nat) {k : Kernel} {S : Finset Nat}, Taken k₀ k S →
    l.Nodup → (∀ f ∈ l, f ∈ S) → Taken k₀ (k.freeFrames l) (S \ l.toFinset)
  | [], _, _, h, _, _ => by
      rw [List.toFinset_nil, Finset.sdiff_empty]
      exact h
  | f :: l, k, S, h, hnd, hl => by
      have hdiv : (f <<< 12) / frameSize = f := by
        rw [Nat.shiftLeft_eq]
        exact Nat.mul_div_cancel _ (by decide)
      obtain ⟨hf, hnd'⟩ := List.nodup_cons.mp hnd
      have h₁ : Taken k₀ (k.freeFrame (f <<< 12)) (S.erase f) := by
        have h' := h.freeFrame (a := f <<< 12) (by rw [hdiv]; exact hl f List.mem_cons_self)
        rwa [hdiv] at h'
      have h₂ := Taken.freeFrames l h₁ hnd' (fun g hg =>
        Finset.mem_erase.mpr ⟨fun he => hf (he ▸ hg), hl g (List.mem_cons_of_mem f hg)⟩)
      have hset : S.erase f \ l.toFinset = S \ (f :: l).toFinset := by
        ext n
        simp only [Finset.mem_sdiff, Finset.mem_erase, List.toFinset_cons, Finset.mem_insert]
        tauto
      rw [hset] at h₂
      exact h₂

/-- The books are as they were exactly when nothing is taken. -/
theorem Taken.books_eq_iff (h : Taken k₀ k S) :
    (k.frameBitmap = k₀.frameBitmap ∧ k.framesUsed = k₀.framesUsed) ↔ S = ∅ := by
  constructor
  · rintro ⟨hb, _⟩
    apply Finset.eq_empty_of_forall_notMem
    intro n hn
    have h1 := h.bits n
    have h2 := (h.wasFree n hn).2
    unfold used at h1 h2
    rw [hb, h2] at h1
    simp [hn] at h1
  · rintro rfl
    refine ⟨?_, ?_⟩
    · apply Words.ext_testBit
      intro n
      have h1 := h.bits n
      simpa [used] using h1
    · simpa using h.count

end

/-! ## What the directory has them for -/

namespace Kernel

/-- The directory itself lies in frame `n`. -/
def IsOwn (k : Kernel) (pd n : Nat) : Prop := k.own pd ≠ 0 ∧ k.own pd / frameSize = n

/-- A page is on frame `n`. -/
def IsData (k : Kernel) (pd n : Nat) : Prop := ∃ p e, k.mapped pd p = some e ∧ e.frame.val = n

/-- A page table was given frame `n`. -/
def IsTable (k : Kernel) (pd n : Nat) : Prop :=
  ∃ i, ((k.dir pd).tables i).present = true ∧ ((k.dir pd).tables i).frame.val = n

end Kernel

/-- The frames taken since `k₀`: those of `lost`, which nobody will give back,
the directory's own, the pages' and the tables'.  No frame is two of these,
and no two pages share one. -/
structure Holdings (k₀ k : Kernel) (pd : Nat) (lost : Finset Nat) : Prop where
  taken : ∃ S, Taken k₀ k S ∧
    ∀ n, n ∈ S ↔ n ∈ lost ∨ k.IsTable pd n ∨ k.IsOwn pd n ∨ k.IsData pd n
  oneToOne : OneToOne (k.dir pd)
  lostApart : ∀ n ∈ lost, ¬ k.IsTable pd n ∧ ¬ k.IsOwn pd n ∧ ¬ k.IsData pd n
  tableApart : ∀ n, k.IsTable pd n → ¬ k.IsOwn pd n ∧ ¬ k.IsData pd n
  ownApart : ∀ n, k.IsOwn pd n → ¬ k.IsData pd n
  frameZero : k.used 0 = true
  zeroUnmapped : ¬ k.IsData pd 0

section
variable {k₀ k k' : Kernel} {pd : Nat} {lost : Finset Nat}

theorem isOwn_congr (ho : k'.own pd = k.own pd) (n : Nat) : k'.IsOwn pd n ↔ k.IsOwn pd n := by
  unfold IsOwn
  rw [ho]

theorem isData_congr (hm : ∀ p, k'.mapped pd p = k.mapped pd p) (n : Nat) :
    k'.IsData pd n ↔ k.IsData pd n := by
  unfold IsData
  simp only [hm]

theorem isTable_congr (ht : (k'.dir pd).tables = (k.dir pd).tables) (n : Nat) :
    k'.IsTable pd n ↔ k.IsTable pd n := by
  unfold IsTable
  rw [ht]

/-- The directory keeps its frame, its table entries and its pages; the frames
taken are its own and those lost, of which some may have gone back. -/
theorem Holdings.sameDir (h : Holdings k₀ k pd lost) {S lost' : Finset Nat}
    (hown : k'.own pd = k.own pd) (htab : (k'.dir pd).tables = (k.dir pd).tables)
    (hm : ∀ p, k'.mapped pd p = k.mapped pd p) (hS : Taken k₀ k' S)
    (hmem : ∀ n, n ∈ S ↔ n ∈ lost' ∨ k.IsTable pd n ∨ k.IsOwn pd n ∨ k.IsData pd n)
    (hsub : lost' ⊆ lost) (hz : k'.used 0 = true) : Holdings k₀ k' pd lost' := by
  have ho := isOwn_congr hown
  have hda := isData_congr hm
  have ht := isTable_congr htab
  refine ⟨⟨S, hS, ?_⟩, ?_, ?_, ?_, ?_, hz, (hda 0).not.mpr h.zeroUnmapped⟩
  · intro n
    rw [ht, ho, hda]
    exact hmem n
  · intro p q e e' he he'
    exact h.oneToOne p q e e' ((hm p).symm.trans he) ((hm q).symm.trans he')
  · intro n hn
    rw [ht, ho, hda]
    exact h.lostApart n (hsub hn)
  · intro n hn
    rw [ho, hda]
    exact h.tableApart n ((ht n).mp hn)
  · intro n hn
    rw [hda]
    exact h.ownApart n ((ho n).mp hn)

/-- A change outside the books that leaves the directory its frame, its table
entries and its pages. -/
theorem Holdings.keep (h : Holdings k₀ k pd lost) (hb : k'.books = k.books)
    (hown : k'.own pd = k.own pd) (htab : (k'.dir pd).tables = (k.dir pd).tables)
    (hm : ∀ p, k'.mapped pd p = k.mapped pd p) : Holdings k₀ k' pd lost := by
  obtain ⟨S, hS, hmem⟩ := h.taken
  refine h.sameDir hown htab hm (hS.of_books hb) hmem (Finset.Subset.refl lost) ?_
  rw [used_of_books hb]
  exact h.frameZero

theorem Holdings.keepDir (h : Holdings k₀ k pd lost) (hb : k'.books = k.books)
    (hd : k'.dir = k.dir) : Holdings k₀ k' pd lost :=
  h.keep hb (by rw [Kernel.own, hd]) (by rw [hd]) (mapped_congr hd pd)

/-- A frame is taken, and nothing names it yet. -/
theorem Holdings.takeFrame (h : Holdings k₀ k pd lost) {i : Nat} (hi : i < maxFrames)
    (hu : k.used i = false) : Holdings k₀ (k.takeFrame i) pd (insert i lost) := by
  obtain ⟨S, hS, hmem⟩ := h.taken
  have hnot : ¬ (i ∈ lost ∨ k.IsTable pd i ∨ k.IsOwn pd i ∨ k.IsData pd i) :=
    fun hc => hS.notMem_of_clear hu ((hmem i).mpr hc)
  simp only [not_or] at hnot
  refine ⟨⟨insert i S, hS.takeFrame hi hu, ?_⟩, h.oneToOne, ?_, h.tableApart, h.ownApart, ?_,
    h.zeroUnmapped⟩
  · intro n
    rw [Finset.mem_insert, Finset.mem_insert, hmem n]
    exact or_assoc.symm
  · intro n hn
    rcases Finset.mem_insert.mp hn with rfl | hn
    · exact hnot.2
    · exact h.lostApart n hn
  · have hz : k.frameBitmap.testBit 0 = true := h.frameZero
    simp [used, Kernel.takeFrame, Words.testBit_setBit, hz]

/-- A frame nobody named goes back. -/
theorem Holdings.release (h : Holdings k₀ k pd lost) {a : Nat} (ha : a / frameSize ∈ lost)
    (hz : a / frameSize ≠ 0) :
    Holdings k₀ (k.freeFrame a) pd (lost.erase (a / frameSize)) := by
  obtain ⟨S, hS, hmem⟩ := h.taken
  have hap := h.lostApart _ ha
  have hd : (k.freeFrame a).dir pd = k.dir pd := by rw [freeFrame_dir]
  refine h.sameDir (by rw [Kernel.own, hd]) (congrArg PageDirectory.tables hd)
    (mapped_congr (freeFrame_dir k a) pd) (hS.freeFrame ((hmem _).mpr (Or.inl ha))) ?_
    (Finset.erase_subset _ lost) ?_
  · intro n
    rw [Finset.mem_erase, Finset.mem_erase, hmem n]
    by_cases hn : n = a / frameSize
    · subst hn
      simp [hap]
    · simp [hn]
  · rw [used_freeFrame_of_ne (Ne.symm hz)]
    exact h.frameZero

/-- A new page table adds its frame to those of the tables. -/
theorem isTable_freshTable {i : Fin 1024} {a : Nat} (hp : ((k.dir pd).tables i).present = false)
    (n : Nat) : (k.setDir pd (freshTable (k.dir pd) i a)).IsTable pd n ↔
      k.IsTable pd n ∨ n = (frameOf a).val := by
  have hdir : (k.setDir pd (freshTable (k.dir pd) i a)).dir pd = freshTable (k.dir pd) i a :=
    Function.update_self _ _ _
  unfold IsTable
  rw [hdir]
  constructor
  · rintro ⟨j, hj, hf⟩
    by_cases hji : j = i
    · subst hji
      simp only [freshTable, Function.update_self] at hf
      exact Or.inr hf.symm
    · simp only [freshTable, Function.update_of_ne hji] at hj hf
      exact Or.inl ⟨j, hj, hf⟩
  · rintro (⟨j, hj, hf⟩ | rfl)
    · have hji : j ≠ i := by
        rintro rfl
        rw [hp] at hj
        exact absurd hj (by decide)
      exact ⟨j, by simpa [freshTable, hji] using hj, by simpa [freshTable, hji] using hf⟩
    · exact ⟨i, by simp [freshTable], by simp [freshTable]⟩

/-- The frame becomes that of a new table. -/
theorem Holdings.asTable (h : Holdings k₀ k pd lost) {i : Fin 1024} {a : Nat}
    (hp : ((k.dir pd).tables i).present = false) (ha : (frameOf a).val ∈ lost) :
    Holdings k₀ (k.setDir pd (freshTable (k.dir pd) i a)) pd (lost.erase (frameOf a).val) := by
  obtain ⟨S, hS, hmem⟩ := h.taken
  have hap := h.lostApart _ ha
  have hdir : (k.setDir pd (freshTable (k.dir pd) i a)).dir pd = freshTable (k.dir pd) i a :=
    Function.update_self _ _ _
  have ho : ∀ n, (k.setDir pd (freshTable (k.dir pd) i a)).IsOwn pd n ↔ k.IsOwn pd n := by
    intro n
    unfold IsOwn Kernel.own
    rw [hdir]
    rfl
  have hm : ∀ p, (k.setDir pd (freshTable (k.dir pd) i a)).mapped pd p = k.mapped pd p := by
    intro p
    unfold mapped
    rw [hdir, freshTable_mapped hp]
  have hda := isData_congr hm
  have ht := isTable_freshTable hp (a := a)
  refine ⟨⟨S, hS.of_books rfl, ?_⟩, ?_, ?_, ?_, ?_, h.frameZero,
    (hda 0).not.mpr h.zeroUnmapped⟩
  · intro n
    rw [hmem n, Finset.mem_erase, ht, ho, hda]
    by_cases hn : n = (frameOf a).val
    · subst hn
      simp [ha]
    · simp [hn]
  · intro p q e e' he he'
    rw [hdir, freshTable_mapped hp] at he he'
    exact h.oneToOne p q e e' he he'
  · intro n hn
    obtain ⟨hne, hn⟩ := Finset.mem_erase.mp hn
    rw [ht, ho, hda]
    have hl := h.lostApart n hn
    exact ⟨fun hc => hc.elim hl.1 hne, hl.2⟩
  · intro n hn
    rw [ho, hda]
    rcases (ht n).mp hn with hn | rfl
    · exact h.tableApart n hn
    · exact hap.2
  · intro n hn
    rw [hda]
    exact h.ownApart n ((ho n).mp hn)

theorem setEntry_tables (k : Kernel) (pd va : Nat) (e : PageTableEntry) :
    ((k.setEntry pd va e).dir pd).tables = (k.dir pd).tables ∧
      (k.setEntry pd va e).own pd = k.own pd := by
  unfold setEntry Kernel.own
  simp only
  split
  · simp [setDir]
  · exact ⟨rfl, rfl⟩

theorem mapped_newEntry {va a flags : Nat} {t : PageTable}
    (htab : (k.dir pd).pageTable (pdIndex va) = some t) (hf : flags &&& pgPresent ≠ 0) (p : PageNo) :
    (k.setEntry pd va (newEntry a flags)).mapped pd p =
      if p = pageOf va then some (newEntry a flags) else k.mapped pd p := by
  have hp : (newEntry a flags).present = true := by simpa [newEntry] using hf
  rw [setEntry_mapped htab]
  simp [hp]

/-- A new page adds its frame to those of the pages. -/
theorem isData_newEntry {va a flags : Nat} {t : PageTable}
    (htab : (k.dir pd).pageTable (pdIndex va) = some t) (hnone : k.mapped pd (pageOf va) = none)
    (hf : flags &&& pgPresent ≠ 0) (n : Nat) :
    (k.setEntry pd va (newEntry a flags)).IsData pd n ↔
      k.IsData pd n ∨ n = (frameOf a).val := by
  have hm := mapped_newEntry htab hf (a := a)
  unfold IsData
  constructor
  · rintro ⟨p, e, he, rfl⟩
    rw [hm] at he
    split at he
    · cases he
      exact Or.inr rfl
    · exact Or.inl ⟨p, e, he, rfl⟩
  · rintro (⟨p, e, he, rfl⟩ | rfl)
    · have hne : p ≠ pageOf va := by
        rintro rfl
        rw [hnone] at he
        exact absurd he (by simp)
      exact ⟨p, e, by rw [hm, if_neg hne, he], rfl⟩
    · exact ⟨pageOf va, newEntry a flags, by rw [hm, if_pos rfl], rfl⟩

/-- No two pages share a frame when the new page's was on none. -/
theorem oneToOne_newEntry {va a flags : Nat} {t : PageTable} (h : OneToOne (k.dir pd))
    (htab : (k.dir pd).pageTable (pdIndex va) = some t) (hf : flags &&& pgPresent ≠ 0)
    (hnot : ¬ k.IsData pd (frameOf a).val) :
    OneToOne ((k.setEntry pd va (newEntry a flags)).dir pd) := by
  have hm := mapped_newEntry htab hf (a := a)
  have hnew : ∀ p e, k.mapped pd p = some e → e.frame ≠ frameOf a :=
    fun p e he heq => hnot ⟨p, e, he, congrArg Fin.val heq⟩
  intro p q e e' he he' heq
  change Kernel.mapped _ pd p = some e at he
  change Kernel.mapped _ pd q = some e' at he'
  rw [hm] at he he'
  split at he
  · next hpv =>
      split at he'
      · next hqv => rw [hpv, hqv]
      · cases he
        exact absurd heq.symm (hnew q e' he')
  · split at he'
    · cases he'
      exact absurd heq (hnew p e he)
    · exact h p q e e' he he' heq

/-- The frame becomes that of a page. -/
theorem Holdings.asData (h : Holdings k₀ k pd lost) {va a flags : Nat} {t : PageTable}
    (htab : (k.dir pd).pageTable (pdIndex va) = some t) (hnone : k.mapped pd (pageOf va) = none)
    (hf : flags &&& pgPresent ≠ 0) (ha : (frameOf a).val ∈ lost) (hz : (frameOf a).val ≠ 0) :
    Holdings k₀ (k.setEntry pd va (newEntry a flags)) pd (lost.erase (frameOf a).val) := by
  obtain ⟨S, hS, hmem⟩ := h.taken
  have hap := h.lostApart _ ha
  obtain ⟨htables, hown⟩ := setEntry_tables k pd va (newEntry a flags)
  have ho : ∀ n, (k.setEntry pd va (newEntry a flags)).IsOwn pd n ↔ k.IsOwn pd n := by
    intro n
    unfold IsOwn
    rw [hown]
  have ht : ∀ n, (k.setEntry pd va (newEntry a flags)).IsTable pd n ↔ k.IsTable pd n :=
    isTable_congr htables
  have hda := isData_newEntry htab hnone hf (a := a)
  refine ⟨⟨S, hS.of_books (setEntry_books _ _ _ _), ?_⟩, ?_, ?_, ?_, ?_, ?_, ?_⟩
  · intro n
    rw [hmem n, Finset.mem_erase, ht, ho, hda]
    by_cases hn : n = (frameOf a).val
    · subst hn
      simp [ha]
    · simp [hn]
  · exact oneToOne_newEntry h.oneToOne htab hf hap.2.2
  · intro n hn
    obtain ⟨hne, hn⟩ := Finset.mem_erase.mp hn
    rw [ht, ho, hda]
    have hl := h.lostApart n hn
    exact ⟨hl.1, hl.2.1, fun hc => hc.elim hl.2.2 hne⟩
  · intro n hn
    rw [ho, hda]
    rw [ht] at hn
    have htn := h.tableApart n hn
    refine ⟨htn.1, fun hc => hc.elim htn.2 ?_⟩
    rintro rfl
    exact hap.1 hn
  · intro n hn
    rw [hda]
    rw [ho] at hn
    refine fun hc => hc.elim (h.ownApart n hn) ?_
    rintro rfl
    exact hap.2.1 hn
  · rw [used_of_books (setEntry_books _ _ _ _)]
    exact h.frameZero
  · rw [hda]
    exact fun hc => hc.elim h.zeroUnmapped (fun heq => hz heq.symm)

/-! ## The calls -/

/-- The page that goes was the only one on its frame. -/
theorem isData_unmapPage {va : Nat} {e : PageTableEntry} (h : OneToOne (k.dir pd))
    (hme : k.mapped pd (pageOf va) = some e) (n : Nat) :
    (k.unmapPage pd va).IsData pd n ↔ k.IsData pd n ∧ n ≠ e.frame.val := by
  unfold IsData
  constructor
  · rintro ⟨p, e', he', rfl⟩
    rw [unmapPage_mapped] at he'
    split at he'
    · exact absurd he' (by simp)
    · next hne =>
        refine ⟨⟨p, e', he', rfl⟩, fun heq => hne ⟨rfl, ?_⟩⟩
        exact h p (pageOf va) e' e he' hme (Fin.ext heq)
  · rintro ⟨⟨p, e', he', rfl⟩, hne⟩
    refine ⟨p, e', ?_, rfl⟩
    rw [unmapPage_mapped, if_neg]
    · exact he'
    · rintro ⟨_, rfl⟩
      rw [hme] at he'
      cases he'
      exact hne rfl

theorem oneToOne_unmapPage (h : OneToOne (k.dir pd)) (va : Nat) :
    OneToOne ((k.unmapPage pd va).dir pd) := by
  intro p q e e' he he' heq
  change Kernel.mapped _ pd p = some e at he
  change Kernel.mapped _ pd q = some e' at he'
  rw [unmapPage_mapped] at he he'
  split at he
  · exact absurd he (by simp)
  · split at he'
    · exact absurd he' (by simp)
    · exact h p q e e' he he' heq

/-- `unmap_page` gives back the frame of the page. -/
theorem Holdings.unmapPage (h : Holdings k₀ k pd lost) (va : Nat) :
    Holdings k₀ (k.unmapPage pd va) pd lost := by
  rcases k.unmapPage_cases pd va with ⟨_, he⟩ | ⟨e, hme, he⟩
  · rw [he]
    exact h
  obtain ⟨S, hS, hmem⟩ := h.taken
  have hdata : k.IsData pd e.frame.val := ⟨pageOf va, e, hme, rfl⟩
  have hne0 : e.frame.val ≠ 0 := fun hz => h.zeroUnmapped (hz ▸ hdata)
  have hb : (k.unmapPage pd va).books = (k.freeFrame (e.frame.val <<< 12)).books := by
    rw [he, setEntry_books]
  have hS' : Taken k₀ (k.unmapPage pd va) (S.erase e.frame.val) := by
    have hin : (e.frame.val <<< 12) / frameSize ∈ S := by
      rw [frame_shiftLeft_div]
      exact (hmem _).mpr (Or.inr (Or.inr (Or.inr hdata)))
    have h' := (hS.freeFrame hin).of_books hb
    rwa [frame_shiftLeft_div] at h'
  obtain ⟨htables, hown⟩ := setEntry_tables (k.freeFrame (e.frame.val <<< 12)) pd va
    { e with present := false }
  rw [← he] at htables hown
  have hd : (k.freeFrame (e.frame.val <<< 12)).dir = k.dir := freeFrame_dir k _
  have ho : ∀ n, (k.unmapPage pd va).IsOwn pd n ↔ k.IsOwn pd n := by
    intro n
    unfold IsOwn
    rw [hown, Kernel.own, hd]
  have ht : ∀ n, (k.unmapPage pd va).IsTable pd n ↔ k.IsTable pd n := by
    apply isTable_congr
    rw [htables, hd]
  have hda := isData_unmapPage h.oneToOne hme
  refine ⟨⟨S.erase e.frame.val, hS', ?_⟩, ?_, ?_, ?_, ?_, ?_, ?_⟩
  · intro n
    rw [Finset.mem_erase, hmem n, ht, ho, hda]
    by_cases hn : n = e.frame.val
    · subst hn
      have h1 : e.frame.val ∉ lost := fun hl => (h.lostApart _ hl).2.2 hdata
      have h2 : ¬ k.IsTable pd e.frame.val := fun hl => (h.tableApart _ hl).2 hdata
      have h3 : ¬ k.IsOwn pd e.frame.val := fun hl => h.ownApart _ hl hdata
      simp [h1, h2, h3]
    · simp [hn]
  · exact oneToOne_unmapPage h.oneToOne va
  · intro n hn
    rw [ht, ho, hda]
    have hl := h.lostApart n hn
    exact ⟨hl.1, hl.2.1, fun hc => hl.2.2 hc.1⟩
  · intro n hn
    rw [ho, hda]
    have htn := h.tableApart n ((ht n).mp hn)
    exact ⟨htn.1, fun hc => htn.2 hc.1⟩
  · intro n hn
    rw [hda]
    exact fun hc => h.ownApart n ((ho n).mp hn) hc.1
  · rw [unmapPage_used hme]
    simp [hne0.symm, h.frameZero]
  · rw [hda]
    exact fun hc => h.zeroUnmapped hc.1

/-- `alloc_frame`: a frame more, or none free. -/
theorem Holdings.allocFrame (h : Holdings k₀ k pd lost) :
    (k.allocFrame.1 = 0 ∧ Holdings k₀ k.allocFrame.2 pd lost) ∨
    (k.allocFrame.1 ≠ 0 ∧ (frameOf k.allocFrame.1).val ≠ 0 ∧
      k.allocFrame.1 / frameSize = (frameOf k.allocFrame.1).val ∧
      (frameOf k.allocFrame.1).val ∉ lost ∧
      Holdings k₀ k.allocFrame.2 pd (insert (frameOf k.allocFrame.1).val lost)) := by
  rcases k.allocFrame_cases with ⟨he, _⟩ | ⟨i, hi, hu, _, he⟩
  · left
    rw [he]
    exact ⟨rfl, h.keepDir (by simp [books]) k.underPressure_dir⟩
  · right
    have hi0 : i ≠ 0 := by
      rintro rfl
      rw [h.frameZero] at hu
      exact absurd hu (by decide)
    have hnot : i ∉ lost := by
      obtain ⟨S, hS, hmem⟩ := h.taken
      exact fun hl => hS.notMem_of_clear hu ((hmem i).mpr (Or.inl hl))
    rw [he]
    simp only
    rw [frameOf_mul, Nat.mod_eq_of_lt hi, Nat.mul_div_cancel _ (by decide)]
    refine ⟨?_, hi0, rfl, hnot, h.takeFrame hi hu⟩
    simp only [frameSize]
    omega

/-- Making room for a table: its frame is the table's, or it goes back. -/
theorem Holdings.getPageTable (h : Holdings k₀ k pd lost) (va : Nat) :
    Holdings k₀ (k.getPageTable pd va true).2 pd lost := by
  have hd : k.allocFrame.2.kmalloc.2.dir = k.dir := by simp
  rcases k.getPageTable_cases pd va with ⟨_, he⟩ | ⟨_, hz, he⟩ | ⟨hp, hz, _, he⟩ | ⟨hp, hz, _, he⟩
  · rw [he]
    exact h
  · rw [he]
    exact h.allocFrame.elim And.right (fun hc => absurd hz hc.1)
  · obtain ⟨hz', _⟩ | ⟨_, hpos, hdiv, hnot, hh⟩ := h.allocFrame
    · exact absurd hz' hz
    rw [he]
    have h₁ : Holdings k₀ (k.allocFrame.2.kmalloc.2.setDir pd (nullTable (k.dir pd) (pdIndex va)))
        pd (insert (frameOf k.allocFrame.1).val lost) := by
      refine (hh.keepDir (kmalloc_books _) (kmalloc_dir _)).keep rfl ?_ ?_ ?_
      · rw [Kernel.own, Kernel.own, hd]
        simp [setDir, nullTable]
      · rw [hd]
        simp [setDir, nullTable]
      · intro p
        rw [mapped_setDir, if_pos rfl, nullTable_mapped hp, mapped, hd]
    have h₂ := h₁.release (a := k.allocFrame.1)
      (by rw [hdiv]; exact Finset.mem_insert_self _ _) (by rw [hdiv]; exact hpos)
    rwa [hdiv, Finset.erase_insert hnot] at h₂
  · obtain ⟨hz', _⟩ | ⟨_, _, _, hnot, hh⟩ := h.allocFrame
    · exact absurd hz' hz
    rw [he]
    have h₁ := hh.keepDir (kmalloc_books _) (kmalloc_dir _)
    have h₂ := h₁.asTable (i := pdIndex va) (a := k.allocFrame.1) (by rw [hd]; exact hp)
      (Finset.mem_insert_self _ _)
    rw [hd, Finset.erase_insert hnot] at h₂
    exact h₂

/-- A page of `map_pages`. -/
theorem Holdings.mapFreshPage (h : Holdings k₀ k pd lost) {va flags : Nat}
    (hf : flags &&& pgPresent ≠ 0) (hnone : k.mapped pd (pageOf va) = none) :
    Holdings k₀ (mapFreshPage pd flags va k).2 pd lost := by
  obtain ⟨hz, hh⟩ | ⟨hz, hpos, hdiv, hnot, hh⟩ := h.allocFrame
  · rcases k.mapFreshPage_cases pd flags va with ⟨_, he⟩ | ⟨hz', _⟩ | ⟨hz', _⟩
    · rw [he]
      exact hh
    · exact absurd hz hz'
    · exact absurd hz hz'
  have hg := hh.getPageTable va
  have hnone' : (k.allocFrame.2.getPageTable pd va true).2.mapped pd (pageOf va) = none := by
    rw [getPageTable_mapped, mapped_congr k.allocFrame_dir]
    exact hnone
  rcases k.mapFreshPage_cases pd flags va with ⟨hz', _⟩ | ⟨_, hr, he⟩ | ⟨_, hr, he⟩
  · exact absurd hz' hz
  · rw [he]
    rcases k.allocFrame.2.mapPage_cases pd va k.allocFrame.1 flags with ⟨_, hm⟩ | ⟨t, ht, hm⟩
    · rw [hm] at hr
      exact absurd hr (by simp)
    · rw [hm]
      have h₁ := hg.asData (getPageTable_some ht) hnone' hf (Finset.mem_insert_self _ _) hpos
      rwa [Finset.erase_insert hnot] at h₁
  · rw [he]
    rcases k.allocFrame.2.mapPage_cases pd va k.allocFrame.1 flags with ⟨_, hm⟩ | ⟨t, ht, hm⟩
    · rw [hm]
      have h₁ := hg.release (a := k.allocFrame.1)
        (by rw [hdiv]; exact Finset.mem_insert_self _ _) (by rw [hdiv]; exact hpos)
      rwa [hdiv, Finset.erase_insert hnot] at h₁
    · rw [hm] at hr
      exact absurd rfl hr

/-- **One step.** -/
theorem Holdings.step (h : Holdings k₀ k pd lost) {c : List Bool × DirCall}
    (hs : dirStep pd k c = some k') : Holdings k₀ k' pd lost := by
  obtain ⟨ha, rfl⟩ := dirStep_eq_some hs
  have h' : Holdings k₀ (k.withAnswers c.1) pd lost := h.keepDir rfl rfl
  obtain ⟨answers, ⟨va, flags⟩ | ⟨va⟩⟩ := c
  · exact h'.mapFreshPage ha.1 ha.2
  · exact h'.unmapPage va

/-- The frame that is out of reach from the start: frame 0, when it was free.
Its address reads as a failure. -/
def lostAtStart (k₀ : Kernel) : Finset Nat := if k₀.used 0 then ∅ else {0}

/-- A directory without tables and pages. -/
theorem holdings_empty {a : Nat} {S : Finset Nat} (hd : k.dir pd = emptyDirectory a)
    (hS : Taken k₀ k S) (hmem : ∀ n, n ∈ S ↔ n ∈ lost ∨ a ≠ 0 ∧ a / frameSize = n)
    (hlost : ∀ n ∈ lost, ¬ (a ≠ 0 ∧ a / frameSize = n)) (hz : k.used 0 = true) :
    Holdings k₀ k pd lost := by
  have hT : ∀ n, ¬ k.IsTable pd n := by
    rintro n ⟨i, hi, _⟩
    rw [hd] at hi
    exact absurd hi (by simp [emptyDirectory, emptyDirectoryEntry])
  have hD : ∀ n, ¬ k.IsData pd n := by
    rintro n ⟨p, e, he, _⟩
    unfold mapped at he
    rw [hd] at he
    exact absurd he (by simp)
  have hown : ∀ n, k.IsOwn pd n ↔ a ≠ 0 ∧ a / frameSize = n := by
    intro n
    unfold IsOwn Kernel.own
    rw [hd]
    rfl
  refine ⟨⟨S, hS, ?_⟩, ?_, ?_, fun n hn => absurd hn (hT n), fun n _ => hD n, hz, hD 0⟩
  · intro n
    rw [hmem n, hown]
    simp [hT, hD]
  · intro p q e e' he
    rw [hd] at he
    exact absurd he (by simp)
  · intro n hn
    rw [hown]
    exact ⟨hT n, hlost n hn, hD n⟩

/-- The directory just made. -/
theorem holdings_create (hc : k₀.createPageDirectory pd = (true, k)) :
    Holdings k₀ k pd (lostAtStart k₀) := by
  have hk : k = { k₀.kmalloc.2.allocFrame.2 with
      live := insert pd k₀.live
      dir := Function.update k₀.dir pd (emptyDirectory k₀.kmalloc.2.allocFrame.1) } := by
    rcases k₀.createPageDirectory_cases pd with he | he
    · rw [hc] at he
      exact absurd (congrArg Prod.fst he) (by simp)
    · rw [hc] at he
      exact congrArg Prod.snd he
  have hb : k.books = k₀.kmalloc.2.allocFrame.2.books := by
    rw [hk]
    rfl
  have hd : k.dir pd = emptyDirectory k₀.kmalloc.2.allocFrame.1 := by
    rw [hk]
    exact Function.update_self _ _ _
  have hkb : ∀ n, k₀.kmalloc.2.used n = k₀.used n := used_of_books (kmalloc_books k₀)
  have htk : Taken k₀ k₀.kmalloc.2 ∅ := (Taken.refl k₀).of_books (kmalloc_books k₀)
  rcases k₀.kmalloc.2.allocFrame_cases with ⟨he, hall⟩ | ⟨i, hi, hu, hlow, he⟩
  · -- nothing was free, frame 0 neither
    have hz : k₀.used 0 = true := (hkb 0).symm.trans (hall 0 (by decide))
    rw [he] at hb hd
    have hb' : k.books = k₀.kmalloc.2.books := hb.trans (by simp [books])
    have hl : lostAtStart k₀ = ∅ := by simp [lostAtStart, hz]
    rw [hl]
    refine holdings_empty hd (htk.of_books hb') (by simp) (by simp) ?_
    rw [used_of_books hb', hkb]
    exact hz
  · have hS := (htk.takeFrame hi hu).of_books (hb.trans (by rw [he]))
    rw [he] at hb hd
    have hdiv : i * frameSize / frameSize = i := Nat.mul_div_cancel _ (by decide)
    rcases Nat.eq_zero_or_pos i with rfl | hpos
    · -- frame 0 was free, and the directory does not know that it has it
      rw [hkb] at hu
      have hl : lostAtStart k₀ = {0} := by simp [lostAtStart, hu]
      rw [hl]
      refine holdings_empty hd hS (by simp) (by simp) ?_
      rw [used_of_books hb]
      exact Words.testBit_setBit_self _ _
    · have hz : k₀.used 0 = true := (hkb 0).symm.trans (hlow 0 hpos)
      have hl : lostAtStart k₀ = ∅ := by simp [lostAtStart, hz]
      have hne : i * frameSize ≠ 0 := by
        simp only [frameSize]
        omega
      rw [hl]
      refine holdings_empty hd hS ?_ (by simp) ?_
      · intro n
        simp only [hdiv, hne, Finset.mem_insert, Finset.notMem_empty, or_false, false_or, ne_eq,
          not_false_eq_true, true_and]
        exact eq_comm
      · rw [hS.bits 0, hz]
        rfl

/-- **What a teardown leaves taken**: what was lost at the start, and the
frames of the page tables. -/
theorem Holdings.destroy (h : Holdings k₀ k pd lost) :
    ∃ S, Taken k₀ (k.destroyPageDirectory pd) S ∧ ∀ n, n ∈ S ↔ n ∈ lost ∨ k.IsTable pd n := by
  obtain ⟨S, hS, hmem⟩ := h.taken
  have hgb : ∀ n, n ∈ givenBack (k.dir pd) ↔ k.IsData pd n := fun n => mem_givenBack
  have h₁ : Taken k₀ (k.freeTables (k.dir pd)) (S \ (givenBack (k.dir pd)).toFinset) := by
    rw [freeTables_eq]
    refine Taken.freeFrames _ hS (nodup_givenBack h.oneToOne) ?_
    intro f hf
    exact (hmem f).mpr (Or.inr (Or.inr (Or.inr ((hgb f).mp hf))))
  have hmem₁ : ∀ n, n ∈ S \ (givenBack (k.dir pd)).toFinset ↔
      n ∈ lost ∨ k.IsTable pd n ∨ k.IsOwn pd n := by
    intro n
    rw [Finset.mem_sdiff, List.mem_toFinset, hgb, hmem n]
    constructor
    · rintro ⟨hn | hn | hn | hn, hnot⟩
      · exact Or.inl hn
      · exact Or.inr (Or.inl hn)
      · exact Or.inr (Or.inr hn)
      · exact absurd hn hnot
    · rintro (hn | hn | hn)
      · exact ⟨Or.inl hn, (h.lostApart n hn).2.2⟩
      · exact ⟨Or.inr (Or.inl hn), (h.tableApart n hn).2⟩
      · exact ⟨Or.inr (Or.inr (Or.inl hn)), h.ownApart n hn⟩
  obtain ⟨devs, he⟩ := k.destroyPageDirectory_eq pd
  rw [he]
  by_cases hz : (k.dir pd).physicalAddress = 0
  · have hno : ∀ n, ¬ k.IsOwn pd n := fun n hn => hn.1 hz
    rw [if_neg (not_not.mpr hz)]
    refine ⟨_, h₁.of_books (books_withDevices _ _ _), ?_⟩
    intro n
    rw [hmem₁ n]
    simp [hno]
  · have hown : k.IsOwn pd ((k.dir pd).physicalAddress / frameSize) := ⟨hz, rfl⟩
    rw [if_pos hz]
    refine ⟨_, (h₁.freeFrame ((hmem₁ _).mpr (Or.inr (Or.inr hown)))).of_books
      (books_withDevices _ _ _), ?_⟩
    intro n
    rw [Finset.mem_erase, hmem₁ n]
    constructor
    · rintro ⟨hne, hn | hn | hn⟩
      · exact Or.inl hn
      · exact Or.inr hn
      · exact absurd hn.2.symm hne
    · rintro (hn | hn)
      · exact ⟨fun heq => (h.lostApart n hn).2.1 (heq ▸ hown), Or.inl hn⟩
      · exact ⟨fun heq => (h.tableApart n hn).1 (heq ▸ hown), Or.inr (Or.inl hn)⟩

end

/-! ## The result -/

/-- **Directory teardown**: the bitmap and the counter are what they were
before the directory was made exactly when frame 0 was in use then and the
directory has no page table when it is destroyed. -/
theorem teardown_restores_iff {k₀ k₁ k : Kernel} {pd : Nat}
    (hc : k₀.createPageDirectory pd = (true, k₁))
    (hr : Reaches (dirStep pd) (fun _ _ => True) k₁ k) :
    ((k.destroyPageDirectory pd).frameBitmap = k₀.frameBitmap ∧
      (k.destroyPageDirectory pd).framesUsed = k₀.framesUsed) ↔
    k₀.used 0 = true ∧ ∀ i, ((k.dir pd).tables i).present = false := by
  have h : Holdings k₀ k pd (lostAtStart k₀) :=
    hr.invariant (I := fun k => Holdings k₀ k pd (lostAtStart k₀)) (holdings_create hc)
      (fun _ _ _ hk _ hs => hk.step hs)
  obtain ⟨S, hS, hmem⟩ := h.destroy
  rw [hS.books_eq_iff]
  constructor
  · intro he
    have hnone : ∀ n, ¬ (n ∈ lostAtStart k₀ ∨ k.IsTable pd n) := by
      intro n hn
      have hin := (hmem n).mpr hn
      rw [he] at hin
      exact absurd hin (Finset.notMem_empty n)
    refine ⟨?_, ?_⟩
    · have h0 := hnone 0
      by_contra hz
      exact h0 (Or.inl (by simp [lostAtStart, hz]))
    · intro i
      by_contra hp
      exact hnone _ (Or.inr ⟨i, by simpa using hp, rfl⟩)
  · rintro ⟨hz, hp⟩
    apply Finset.eq_empty_of_forall_notMem
    intro n hn
    rcases (hmem n).mp hn with hl | ⟨i, hi, _⟩
    · simp [lostAtStart, hz] at hl
    · rw [hp i] at hi
      exact absurd hi (by decide)

/-- A directory that was refused its first page table gives everything back. -/
theorem teardown_restores_refused :
    ∃ k, Reaches (dirStep 1) (fun _ _ => True) (boot.createPageDirectory 1).2 k ∧
      (k.destroyPageDirectory 1).frameBitmap = boot.frameBitmap ∧
      (k.destroyPageDirectory 1).framesUsed = boot.framesUsed := by
  obtain ⟨k, hr, hp⟩ := Reaches.of_script (dirStep 1) (fun _ _ => True)
    (boot.createPageDirectory 1).2
    (fun k => decide (∀ i, ((k.dir 1).tables i).present = false))
    [([false], .map userOffset 7), ([], .unmap userOffset)] (fun _ _ _ => True.intro)
    (by decide +kernel)
  have hc : boot.createPageDirectory 1 = (true, (boot.createPageDirectory 1).2) := rfl
  have hiff := teardown_restores_iff hc hr
  exact ⟨k, hr, hiff.mpr ⟨by decide +kernel, of_decide_eq_true hp⟩⟩

/-- One page is mapped at `USER_OFFSET`.  After the teardown the frame of its
page table is still marked and counted. -/
theorem one_page_leaks_table :
    ∃ k₁ k, boot.createPageDirectory 1 = (true, k₁) ∧
      Reaches (dirStep 1) (fun _ _ => True) k₁ k ∧
      boot.used 258 = false ∧ (k.destroyPageDirectory 1).used 258 = true ∧
      (k.destroyPageDirectory 1).framesUsed = boot.framesUsed + 1 := by
  obtain ⟨k, hr, hp⟩ := Reaches.of_script (dirStep 1) (fun _ _ => True)
    (boot.createPageDirectory 1).2
    (fun k => decide (boot.used 258 = false ∧ (k.destroyPageDirectory 1).used 258 = true ∧
      (k.destroyPageDirectory 1).framesUsed = boot.framesUsed + 1))
    [([], .map userOffset 7)] (fun _ _ _ => True.intro) (by decide +kernel)
  exact ⟨(boot.createPageDirectory 1).2, k, rfl, hr, of_decide_eq_true hp⟩

end KmOS
