/-
# `KmOS.Vmm.FrameCount` — `frames_used` and the bits of `frame_bitmap`

`alloc_frame` sets a clear bit and adds one to `frames_used`; `free_frame`
clears a bit and takes one off, without looking whether the bit was set.  So
the counter stays the number of set bits as long as nobody frees a frame that
is free already:

    Counted (free_frame a)   iff   the bit of `a` was set      (`counted_freeFrame_iff`)
    Counted (unmap_page va)  iff   the bit of the page's frame
                                   was set                     (`counted_unmapPage_iff`)

Taking frames needs no condition, and neither does `map_page`: the frame it
may take for a table goes back only while its bit is set.

A teardown frees a whole list of frames (`givenBack`), so there the condition
is that the list has no frame twice and all of them are marked.
-/
import KmOS.Vmm.Directory
import Mathlib.Data.List.FinRange
import Mathlib.Data.List.Nodup
import Mathlib.Data.List.ProdSigma

namespace KmOS

namespace Kernel

/-- `memory_stats::free_pages`, as `get_memory_stats` computes it. -/
def freePages (k : Kernel) : BitVec 32 := BitVec.ofNat 32 maxFrames - k.framesUsed

/-- `frames_used` is the number of set bits. -/
def Counted (k : Kernel) : Prop := k.framesUsed.toNat = k.frameBitmap.count maxFrames

/-- The part of the state the frame allocator keeps its books in. -/
def books (k : Kernel) : Words × BitVec 32 := (k.frameBitmap, k.framesUsed)

section
variable {k k' : Kernel}

theorem Counted.of_books (h : Counted k) (hb : k'.books = k.books) : Counted k' := by
  have h1 : k'.frameBitmap = k.frameBitmap := congrArg Prod.fst hb
  have h2 : k'.framesUsed = k.framesUsed := congrArg Prod.snd hb
  unfold Counted at h ⊢
  rw [h1, h2]
  exact h

theorem used_of_books (hb : k'.books = k.books) (n : Nat) : k'.used n = k.used n := by
  have h1 : k'.frameBitmap = k.frameBitmap := congrArg Prod.fst hb
  unfold used
  rw [h1]

/-- A counter that is right leaves the free pages right as well. -/
theorem Counted.freePages (h : Counted k) :
    k.freePages.toNat = ((Finset.range maxFrames).filter (fun i => k.used i = false)).card := by
  have hle := k.frameBitmap.count_le maxFrames
  have hc : ((Finset.range maxFrames).filter (fun i => k.used i = false)).card = _ :=
    k.frameBitmap.card_clear maxFrames
  rw [hc, Kernel.freePages, BitVec.toNat_sub, BitVec.toNat_ofNat]
  unfold Counted at h
  rw [h]
  simp only [maxFrames] at hle ⊢
  omega

/-! ## Frames taken and given back -/

theorem Counted.takeFrame (h : Counted k) {i : Nat} (hi : i < maxFrames)
    (hu : k.used i = false) : Counted (k.takeFrame i) := by
  have hle := k.frameBitmap.count_le maxFrames
  unfold Counted at h ⊢
  simp only [Kernel.takeFrame]
  rw [Words.count_setBit hi hu, BitVec.toNat_add, h]
  simp only [maxFrames] at hle ⊢
  exact Nat.mod_eq_of_lt (by simp; omega)

@[simp] theorem kmalloc_books (k : Kernel) : k.kmalloc.2.books = k.books := by
  simp [books]

theorem counted_allocFrame (h : Counted k) : Counted k.allocFrame.2 := by
  rcases k.allocFrame_cases with ⟨he, _⟩ | ⟨i, hi, hu, _, he⟩
  · rw [he]
    exact h.of_books (by simp [books])
  · rw [he]
    exact h.takeFrame hi hu

/-- **`free_frame` keeps the count exactly when the frame was in use.** -/
theorem counted_freeFrame_iff (h : Counted k) {a : Nat} (ha : a / frameSize < maxFrames) :
    Counted (k.freeFrame a) ↔ k.used (a / frameSize) = true := by
  have hle := k.frameBitmap.count_le maxFrames
  have hf : k.freeFrame a = { k with
      frameBitmap := k.frameBitmap.clearBit (a / frameSize)
      framesUsed := k.framesUsed - 1 } := by
    unfold freeFrame
    simp only [ha, if_true]
  unfold Counted at h ⊢
  rw [hf]
  simp only
  rw [BitVec.toNat_sub, h, show (1 : BitVec 32).toNat = 1 from rfl]
  cases hu : k.used (a / frameSize) with
  | true =>
      have hc := Words.count_clearBit ha hu
      simp only [maxFrames] at hle hc ⊢
      simp only [iff_true]
      omega
  | false =>
      rw [Words.clearBit_of_clear hu]
      simp only [maxFrames] at hle ⊢
      simp only [Bool.false_eq_true, iff_false]
      omega

theorem Counted.freeFrame (h : Counted k) {a : Nat} (hu : k.used (a / frameSize) = true) :
    Counted (k.freeFrame a) := by
  by_cases ha : a / frameSize < maxFrames
  · exact (counted_freeFrame_iff h ha).mpr hu
  · have hf : k.freeFrame a = k := by
      unfold Kernel.freeFrame
      simp only [ha, if_false]
    rw [hf]
    exact h

/-! ## Page tables -/

@[simp] theorem setEntry_books (k : Kernel) (pd va : Nat) (e : PageTableEntry) :
    (k.setEntry pd va e).books = k.books := by
  simp [books]

@[simp] theorem setWritable_books (k : Kernel) (pd va : Nat) (b : Bool) :
    (k.setWritable pd va b).books = k.books := by
  unfold setWritable
  split
  · rfl
  · exact setEntry_books _ _ _ _

theorem counted_getPageTable (h : Counted k) (pd va : Nat) :
    Counted (k.getPageTable pd va true).2 := by
  have ha := counted_allocFrame h
  rcases k.getPageTable_cases pd va with ⟨_, he⟩ | ⟨_, _, he⟩ | ⟨_, hz, _, he⟩ | ⟨_, _, _, he⟩
  · rw [he]
    exact h
  · rw [he]
    exact ha
  · -- the frame for the table goes back, and its bit has just been set
    obtain ⟨i, _, _, _, _, hal⟩ := allocFrame_of_ne_zero hz
    rw [he]
    have hb : (k.allocFrame.2.kmalloc.2.setDir pd (nullTable (k.dir pd) (pdIndex va))).books =
        k.allocFrame.2.books := kmalloc_books _
    apply (ha.of_books hb).freeFrame
    rw [used_of_books hb, hal]
    simp only
    rw [Nat.mul_div_cancel _ (by decide)]
    exact Words.testBit_setBit_self _ _
  · rw [he]
    exact ha.of_books (kmalloc_books _)

theorem counted_mapPage (h : Counted k) (pd va pa flags : Nat) :
    Counted (k.mapPage pd va pa flags).2 := by
  have hg := counted_getPageTable h pd va
  rcases k.mapPage_cases pd va pa flags with ⟨_, he⟩ | ⟨t, _, he⟩
  · rw [he]
    exact hg
  · rw [he]
    exact hg.of_books (setEntry_books _ _ _ _)

/-- The frame of the page at `va`, if there is a page, is marked. -/
def PageMarked (k : Kernel) (pd va : Nat) : Prop :=
  ∀ e, k.mapped pd (pageOf va) = some e → k.used e.frame.val = true

/-- **`unmap_page` keeps the count exactly when the page's frame was in
use.** -/
theorem counted_unmapPage_iff (h : Counted k) (pd va : Nat) :
    Counted (k.unmapPage pd va) ↔ PageMarked k pd va := by
  rcases k.unmapPage_cases pd va with ⟨hn, he⟩ | ⟨e, hm, he⟩
  · rw [he]
    refine ⟨fun _ e he' => ?_, fun _ => h⟩
    rw [hn] at he'
    exact absurd he' (by simp)
  · have hlt : (e.frame.val <<< 12) / frameSize < maxFrames := by
      rw [frame_shiftLeft_div]
      exact e.frame.isLt
    have hb : (k.unmapPage pd va).books = (k.freeFrame (e.frame.val <<< 12)).books := by
      rw [he, setEntry_books]
    have hiff := counted_freeFrame_iff h hlt
    rw [frame_shiftLeft_div] at hiff
    constructor
    · intro hc e' he'
      rw [hm] at he'
      cases he'
      exact hiff.mp (hc.of_books hb.symm)
    · intro hp
      exact (hiff.mpr (hp e hm)).of_books hb

theorem counted_createPageDirectory (h : Counted k) (pd : Nat) :
    Counted (k.createPageDirectory pd).2 := by
  have hk : Counted k.kmalloc.2 := h.of_books (kmalloc_books k)
  unfold createPageDirectory
  rcases hm : k.kmalloc with ⟨_ | _, k₁⟩
  · rw [hm] at hk
    exact hk
  · rw [hm] at hk
    exact (counted_allocFrame hk).of_books rfl

/-! ## Teardown -/

/-- The frames `destroy_page_directory` goes over, in its order. -/
def givenBack (d : PageDirectory) : List Nat :=
  (List.finRange 1024).flatMap fun i =>
    match d.pageTable i with
    | some t => ((List.finRange 1024).filter (fun j => (t j).present)).map (fun j => (t j).frame.val)
    | none => []

/-- Free a list of frames. -/
def freeFrames (k : Kernel) (l : List Nat) : Kernel := l.foldl (fun k f => k.freeFrame (f <<< 12)) k

theorem freeFrames_append (k : Kernel) (l l' : List Nat) :
    k.freeFrames (l ++ l') = (k.freeFrames l).freeFrames l' := List.foldl_append

theorem freeTable_eq_from (t : PageTable) : ∀ (l : List (Fin 1024)) (k : Kernel),
    l.foldl (fun k j => if (t j).present then k.freeFrame ((t j).frame.val <<< 12) else k) k =
      k.freeFrames ((l.filter (fun j => (t j).present)).map (fun j => (t j).frame.val))
  | [], _ => rfl
  | j :: l, k => by
      rw [List.foldl_cons, freeTable_eq_from t l]
      cases hp : (t j).present with
      | false => simp [hp]
      | true =>
          simp only [hp, if_true, List.filter_cons, List.map_cons]
          rfl

theorem freeTables_eq_from (d : PageDirectory) : ∀ (l : List (Fin 1024)) (k : Kernel),
    l.foldl (fun k i =>
      match d.pageTable i with
      | some t => k.freeTable t
      | none => k) k =
      k.freeFrames (l.flatMap fun i =>
        match d.pageTable i with
        | some t =>
            ((List.finRange 1024).filter (fun j => (t j).present)).map (fun j => (t j).frame.val)
        | none => [])
  | [], _ => rfl
  | i :: l, k => by
      rw [List.foldl_cons, freeTables_eq_from d l, List.flatMap_cons, freeFrames_append]
      cases d.pageTable i with
      | none => rfl
      | some t =>
          simp only
          rw [freeTable, freeTable_eq_from]

/-- The loops over the tables free one list of frames. -/
theorem freeTables_eq (k : Kernel) (d : PageDirectory) :
    k.freeTables d = k.freeFrames (givenBack d) := freeTables_eq_from d (List.finRange 1024) k

theorem mem_givenBack {d : PageDirectory} {n : Nat} :
    n ∈ givenBack d ↔ ∃ p e, d.mapped p = some e ∧ e.frame.val = n := by
  simp only [givenBack, List.mem_flatMap, List.mem_finRange, true_and]
  constructor
  · rintro ⟨i, hi⟩
    cases ht : d.pageTable i with
    | none =>
        rw [ht] at hi
        exact absurd hi (by simp)
    | some t =>
        rw [ht] at hi
        simp only [List.mem_map, List.mem_filter, List.mem_finRange, true_and] at hi
        obtain ⟨j, hp, hf⟩ := hi
        exact ⟨(i, j), t j, PageDirectory.mapped_eq_some.mpr ⟨t, ht, rfl, hp⟩, hf⟩
  · rintro ⟨⟨i, j⟩, e, he, hf⟩
    obtain ⟨t, ht, rfl, hp⟩ := PageDirectory.mapped_eq_some.mp he
    refine ⟨i, ?_⟩
    simp only at ht
    rw [ht]
    simp only [List.mem_map, List.mem_filter, List.mem_finRange, true_and]
    exact ⟨j, hp, hf⟩

/-- No two pages of the directory are on one frame. -/
def OneToOne (d : PageDirectory) : Prop :=
  ∀ p q e e', d.mapped p = some e → d.mapped q = some e' → e.frame = e'.frame → p = q

theorem nodup_givenBack {d : PageDirectory} (h : OneToOne d) : (givenBack d).Nodup := by
  unfold givenBack
  rw [List.nodup_flatMap]
  constructor
  · intro i _
    cases ht : d.pageTable i with
    | none => exact List.nodup_nil
    | some t =>
        refine List.Nodup.map_on ?_ ((List.nodup_finRange 1024).filter _)
        intro j hj j' hj' heq
        have hp : (t j).present = true := (List.mem_filter.mp hj).2
        have hp' : (t j').present = true := (List.mem_filter.mp hj').2
        have hpage := h (i, j) (i, j') (t j) (t j')
          (PageDirectory.mapped_eq_some.mpr ⟨t, ht, rfl, hp⟩)
          (PageDirectory.mapped_eq_some.mpr ⟨t, ht, rfl, hp'⟩) (Fin.ext heq)
        exact congrArg Prod.snd hpage
  · refine List.Pairwise.imp ?_ (List.nodup_finRange 1024)
    intro i i' hne n hn hn'
    cases ht : d.pageTable i with
    | none =>
        simp only [ht] at hn
        exact absurd hn (by simp)
    | some t =>
        cases ht' : d.pageTable i' with
        | none =>
            simp only [ht'] at hn'
            exact absurd hn' (by simp)
        | some t' =>
            simp only [ht, List.mem_map, List.mem_filter, List.mem_finRange, true_and] at hn
            simp only [ht', List.mem_map, List.mem_filter, List.mem_finRange, true_and] at hn'
            obtain ⟨j, hp, hf⟩ := hn
            obtain ⟨j', hp', hf'⟩ := hn'
            have hpage := h (i, j) (i', j') (t j) (t' j')
              (PageDirectory.mapped_eq_some.mpr ⟨t, ht, rfl, hp⟩)
              (PageDirectory.mapped_eq_some.mpr ⟨t', ht', rfl, hp'⟩) (Fin.ext (hf.trans hf'.symm))
            exact hne (congrArg Prod.fst hpage)

/-- Frames that are all marked, and none twice, can be freed one after
another. -/
theorem counted_freeFrames : ∀ (l : List Nat) {k : Kernel}, Counted k → l.Nodup →
    (∀ f ∈ l, k.used f = true) → Counted (k.freeFrames l)
  | [], _, h, _, _ => h
  | f :: l, k, h, hnd, hu => by
      have hdiv : (f <<< 12) / frameSize = f := by
        rw [Nat.shiftLeft_eq]
        exact Nat.mul_div_cancel _ (by decide)
      obtain ⟨hf, hnd'⟩ := List.nodup_cons.mp hnd
      have h₁ : Counted (k.freeFrame (f <<< 12)) := by
        apply h.freeFrame
        rw [hdiv]
        exact hu f List.mem_cons_self
      apply counted_freeFrames l h₁ hnd'
      intro g hg
      have hne : g ≠ (f <<< 12) / frameSize := by
        rw [hdiv]
        rintro rfl
        exact hf hg
      rw [used_freeFrame_of_ne hne]
      exact hu g (List.mem_cons_of_mem f hg)

/-- What a teardown of `pd` needs: its pages are on marked frames, no two on
one frame, and none on the frame of the directory itself, which is marked. -/
structure TeardownMarked (k : Kernel) (pd : Nat) : Prop where
  pages : ∀ p e, k.mapped pd p = some e → k.used e.frame.val = true
  oneToOne : OneToOne (k.dir pd)
  ownMarked : (k.dir pd).physicalAddress ≠ 0 →
    k.used ((k.dir pd).physicalAddress / frameSize) = true
  ownUnmapped : (k.dir pd).physicalAddress ≠ 0 → ∀ p e, k.mapped pd p = some e →
    e.frame.val ≠ (k.dir pd).physicalAddress / frameSize

theorem books_withDevices (k : Kernel) (devs : List SwapDevice) (live : Finset Nat) :
    ({ k with swapDevices := devs, live := live } : Kernel).books = k.books := rfl

theorem counted_destroyPageDirectory (h : Counted k) {pd : Nat} (ht : TeardownMarked k pd) :
    Counted (k.destroyPageDirectory pd) := by
  have htables : Counted (k.freeTables (k.dir pd)) := by
    rw [freeTables_eq]
    apply counted_freeFrames _ h (nodup_givenBack ht.oneToOne)
    intro f hf
    obtain ⟨p, e, he, rfl⟩ := mem_givenBack.mp hf
    exact ht.pages p e he
  obtain ⟨devs, he⟩ := k.destroyPageDirectory_eq pd
  rw [he]
  split
  · next hz =>
      have hu : (k.freeTables (k.dir pd)).used ((k.dir pd).physicalAddress / frameSize) = true :=
        (k.freeTables_used (k.dir pd) _).mpr ⟨ht.ownMarked hz, ht.ownUnmapped hz⟩
      exact (htables.freeFrame hu).of_books (books_withDevices _ _ _)
  · exact htables.of_books (books_withDevices _ _ _)

end

end Kernel

end KmOS
