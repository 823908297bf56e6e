/-
# `KmOS.Vmm.FlatMap` — the page tables stand for a flat map

## What is proved

A directory fresh from `create_page_directory` is driven by `map_page` and
`unmap_page`, while the rest of the kernel takes and gives back frames and
`kmalloc` answers as it likes.  After any such run:

    get_physical_addr(va) = frame * 4096 + va % 4096      for the last successful map of
                                                          va's page with PG_PRESENT,
                          = 0                             if it was unmapped, mapped without
                                                          PG_PRESENT, or never mapped

(`lastMapped` reads this off the calls made, latest first), and a `map_page`
that returns -1 changes no such answer.

## What is not

A failing `map_page` is to leave `frame_bitmap` and `frames_used` alone.  It
does so exactly when frame 0 is marked used.  `alloc_frame` writes the answer
"no frame" as 0, and 0 is also the address of frame 0: when that is the lowest
clear frame it is taken, counted, and then read by `get_page_table` as a
failure, so the call returns -1 with bit 0 set and one frame more in use.
`VMM::init` marks frame 0, but `map_page(pd, va, 0, PG_PRESENT)` followed by
`unmap_page(pd, va)` clears the mark.
-/
import KmOS.Lib.Run
import KmOS.Vmm.Directory

namespace KmOS

open Kernel

/-! ## The calls and their specification -/

/-- A call on the directory, with what it answered. -/
inductive MapEvent where
  | map (va pa flags : Nat) (result : Int)
  | unmap (va : Nat)

/-- The frame the calls, latest first, leave page `p` mapped to. -/
def lastMapped : List MapEvent → PageNo → Option (Fin maxFrames)
  | [], _ => none
  | .map va pa flags result :: es, p =>
      if result = 0 ∧ pageOf va = p then
        (if flags &&& pgPresent != 0 then some (frameOf pa) else none)
      else lastMapped es p
  | .unmap va :: es, p => if pageOf va = p then none else lastMapped es p

/-- The steps of a run: the two calls, and anything the rest of the kernel may
do to the frames and to the heap between them. -/
inductive TableCall where
  | map (va pa flags : Nat)
  | unmap (va : Nat)
  | elsewhere (bitmap : Words) (framesUsed : BitVec 32) (answers : List Bool)

/-- One step on directory `pd`, with the events so far. -/
def tableStep (pd : Nat) : Kernel × List MapEvent → TableCall → Option (Kernel × List MapEvent)
  | (k, es), .map va pa flags =>
      let (result, k') := k.mapPage pd va pa flags
      if k'.hung then none else some (k', .map va pa flags result :: es)
  | (k, es), .unmap va => some (k.unmapPage pd va, .unmap va :: es)
  | (k, es), .elsewhere bitmap framesUsed answers =>
      some ({ k with frameBitmap := bitmap, framesUsed := framesUsed, kmallocs := answers }, es)

/-! ## A present directory entry has its table -/

/-- `tables[i].present` is set only after `page_tables[i]` is. -/
def PageDirectory.Wf (d : PageDirectory) : Prop :=
  ∀ i, (d.tables i).present = true → d.pageTables i ≠ none

theorem setEntry_wf {k : Kernel} {pd va : Nat} {e : PageTableEntry} (h : (k.dir pd).Wf) :
    ((k.setEntry pd va e).dir pd).Wf := by
  unfold setEntry
  simp only
  split
  · intro i hi
    simp only [setDir, Function.update_self] at hi ⊢
    by_cases hj : i = pdIndex va
    · subst hj; simp
    · simpa [hj] using h i hi
  · exact h

theorem getPageTable_wf {k : Kernel} {pd va : Nat} (h : (k.dir pd).Wf) :
    ((k.getPageTable pd va true).2.dir pd).Wf := by
  rcases k.getPageTable_cases pd va with ⟨_, he⟩ | ⟨_, _, he⟩ | ⟨hp, _, _, he⟩ | ⟨_, _, _, he⟩
  · rw [he]
    exact h
  · rw [he, allocFrame_dir]
    exact h
  · rw [he, freeFrame_dir]
    intro i hi
    simp only [setDir, Function.update_self, nullTable] at hi ⊢
    have hne : i ≠ pdIndex va := by
      rintro rfl
      rw [hp] at hi
      exact absurd hi (by simp)
    simpa [hne] using h i hi
  · rw [he]
    intro i hi
    simp only [setDir, Function.update_self, freshTable] at hi ⊢
    by_cases hj : i = pdIndex va
    · subst hj; simp
    · simp only [Function.update_of_ne hj] at hi ⊢
      exact h i hi

theorem mapPage_wf {k : Kernel} {pd va pa flags : Nat} (h : (k.dir pd).Wf) :
    ((k.mapPage pd va pa flags).2.dir pd).Wf := by
  rcases k.mapPage_cases pd va pa flags with ⟨_, he⟩ | ⟨t, _, he⟩
  · rw [he]
    exact getPageTable_wf h
  · rw [he]
    exact setEntry_wf (getPageTable_wf h)

theorem unmapPage_wf {k : Kernel} {pd va : Nat} (h : (k.dir pd).Wf) :
    ((k.unmapPage pd va).dir pd).Wf := by
  rcases k.unmapPage_cases pd va with ⟨_, he⟩ | ⟨e, _, he⟩
  · rw [he]
    exact h
  · rw [he]
    apply setEntry_wf
    rw [freeFrame_dir]
    exact h

/-! ## A failing `map_page` and the frame accounts -/

/-- A table frame that is given back at once leaves the accounts as they were. -/
theorem freeFrame_after_alloc {k : Kernel} (k₂ : Kernel) {i : Nat} (hi : i < maxFrames)
    (hu : k.used i = false) (hb : k₂.frameBitmap = k.frameBitmap.setBit i)
    (hf : k₂.framesUsed = k.framesUsed + 1) :
    (k₂.freeFrame (i * frameSize)).frameBitmap = k.frameBitmap ∧
      (k₂.freeFrame (i * frameSize)).framesUsed = k.framesUsed := by
  have hdiv : i * frameSize / frameSize = i := Nat.mul_div_cancel _ (by decide)
  simp only [freeFrame, hdiv, hi, if_true, hb, hf]
  exact ⟨Words.clearBit_setBit hu, BitVec.add_sub_cancel _ _⟩

theorem getPageTable_none_accounts {k : Kernel} {pd va : Nat} (hw : (k.dir pd).Wf)
    (h : (k.getPageTable pd va true).1 = none) :
    ((k.getPageTable pd va true).2.frameBitmap = k.frameBitmap ∧
      (k.getPageTable pd va true).2.framesUsed = k.framesUsed) ↔ k.used 0 = true := by
  rcases k.getPageTable_cases pd va with ⟨hp, he⟩ | ⟨_, ha, he⟩ | ⟨_, ha, _, he⟩ | ⟨_, _, _, he⟩
  · rw [he] at h
    exact absurd h (hw _ hp)
  · rw [he]
    rcases k.allocFrame_cases with ⟨hal, hfull⟩ | ⟨i, _, hu, _, hal⟩
    · rw [hal]
      simp [hfull 0 (by decide)]
    · -- the frame taken is frame 0, and its address reads as a failure
      have hi0 : i = 0 := by
        rw [hal] at ha
        have : i * frameSize = 0 := ha
        simpa [frameSize] using this
      subst hi0
      rw [hal, hu]
      simp only [Bool.false_eq_true, iff_false, not_and]
      intro hb
      have hset : (k.takeFrame 0).used 0 = true := k.frameBitmap.testBit_setBit_self 0
      have hclear : (k.takeFrame 0).used 0 = false := by
        unfold used
        rw [hb]
        exact hu
      rw [hset] at hclear
      exact absurd hclear (by simp)
  · obtain ⟨i, hi0, hi, hu, hlow, hal⟩ := allocFrame_of_ne_zero ha
    rw [hal] at he
    rw [he]
    have hacc := freeFrame_after_alloc
      ((k.takeFrame i).kmalloc.2.setDir pd (nullTable (k.dir pd) (pdIndex va)))
      hi hu ((k.takeFrame i).kmalloc_frameBitmap) ((k.takeFrame i).kmalloc_framesUsed)
    exact iff_of_true hacc (hlow 0 hi0)
  · rw [he] at h
    exact absurd h (by simp)

/-- **A failing `map_page` keeps the accounts exactly when frame 0 is taken.** -/
theorem mapPage_fail_accounts {k : Kernel} {pd va pa flags : Nat} (hw : (k.dir pd).Wf)
    (h : (k.mapPage pd va pa flags).1 = -1) :
    ((k.mapPage pd va pa flags).2.frameBitmap = k.frameBitmap ∧
      (k.mapPage pd va pa flags).2.framesUsed = k.framesUsed) ↔ k.used 0 = true := by
  rcases k.mapPage_cases pd va pa flags with ⟨hn, he⟩ | ⟨t, _, he⟩
  · rw [he]
    exact getPageTable_none_accounts hw hn
  · rw [he] at h
    exact absurd h (by simp)

/-! ## The refinement -/

/-- The directory's view is the flat map of the events. -/
def FlatMap (pd : Nat) (s : Kernel × List MapEvent) : Prop :=
  (s.1.dir pd).Wf ∧ ∀ p, (s.1.mapped pd p).map PageTableEntry.frame = lastMapped s.2 p

theorem flatMap_create {k k' : Kernel} {pd : Nat} (h : k.createPageDirectory pd = (true, k')) :
    FlatMap pd (k', []) := by
  unfold createPageDirectory at h
  split at h
  · exact absurd h (by simp)
  · simp only [Prod.mk.injEq, true_and] at h
    subst h
    refine ⟨?_, ?_⟩
    · intro i hi
      simp only [Function.update_self] at hi
      exact absurd hi (by simp [emptyDirectory, emptyDirectoryEntry])
    · intro p
      simp only [mapped, Function.update_self, emptyDirectory_mapped, Option.map_none, lastMapped]

theorem flatMap_map {k : Kernel} {es : List MapEvent} {pd va pa flags : Nat}
    (h : FlatMap pd (k, es)) :
    FlatMap pd ((k.mapPage pd va pa flags).2,
      .map va pa flags (k.mapPage pd va pa flags).1 :: es) := by
  obtain ⟨hw, hm⟩ := h
  refine ⟨mapPage_wf hw, ?_⟩
  intro p
  simp only [lastMapped]
  by_cases hr : (k.mapPage pd va pa flags).1 = 0
  · rw [mapPage_mapped hr]
    by_cases hp : p = pageOf va
    · subst hp
      simp only [hr, and_self, if_true]
      show Option.map _ (if (flags &&& pgPresent != 0) = true then _ else _) = _
      split <;> rfl
    · have hp' : ¬ (pageOf va = p) := fun h => hp h.symm
      simp only [hp, hp', and_false, if_false]
      exact hm p
  · rw [mapPage_mapped_fail hr]
    simp only [hr, false_and, if_false]
    exact hm p

theorem flatMap_unmap {k : Kernel} {es : List MapEvent} {pd va : Nat} (h : FlatMap pd (k, es)) :
    FlatMap pd (k.unmapPage pd va, .unmap va :: es) := by
  obtain ⟨hw, hm⟩ := h
  refine ⟨unmapPage_wf hw, ?_⟩
  intro p
  simp only [lastMapped, unmapPage_mapped, true_and]
  by_cases hp : p = pageOf va
  · subst hp; simp
  · have hp' : ¬ (pageOf va = p) := fun h => hp h.symm
    simp only [hp, hp', if_false]
    exact hm p

theorem flatMap_step {pd : Nat} {s s' : Kernel × List MapEvent} {c : TableCall}
    (h : FlatMap pd s) (hs : tableStep pd s c = some s') : FlatMap pd s' := by
  obtain ⟨k, es⟩ := s
  cases c with
  | map va pa flags =>
      simp only [tableStep] at hs
      split at hs
      · exact absurd hs (by simp)
      · cases hs
        exact flatMap_map h
  | unmap va =>
      cases hs
      exact flatMap_unmap h
  | elsewhere bitmap framesUsed answers =>
      cases hs
      exact h

/-- **The two-level tables refine the flat map**, and a failing `map_page`
changes no lookup; it keeps the frame accounts exactly when frame 0 is marked
used. -/
theorem pageTables_refine_flatMap {pd : Nat} {k₀ k₁ k : Kernel} {es : List MapEvent}
    (hc : k₀.createPageDirectory pd = (true, k₁))
    (hr : Reaches (tableStep pd) (fun _ _ => True) (k₁, []) (k, es)) :
    (∀ va, k.getPhysicalAddr pd va =
      match lastMapped es (pageOf va) with
      | some f => f.val * 4096 + va % 4096
      | none => 0) ∧
    ∀ va pa flags, (k.mapPage pd va pa flags).1 = -1 →
      (∀ va', (k.mapPage pd va pa flags).2.getPhysicalAddr pd va' = k.getPhysicalAddr pd va') ∧
      (((k.mapPage pd va pa flags).2.frameBitmap = k.frameBitmap ∧
        (k.mapPage pd va pa flags).2.framesUsed = k.framesUsed) ↔ k.used 0 = true) := by
  obtain ⟨hw, hm⟩ : FlatMap pd (k, es) :=
    hr.invariant (flatMap_create hc) (fun _ _ _ h _ hs => flatMap_step h hs)
  refine ⟨?_, ?_⟩
  · intro va
    have hva : (k.mapped pd (pageOf va)).map PageTableEntry.frame = lastMapped es (pageOf va) :=
      hm (pageOf va)
    rw [getPhysicalAddr_eq, ← hva]
    cases k.mapped pd (pageOf va) <;> rfl
  · intro va pa flags hfail
    refine ⟨?_, mapPage_fail_accounts hw hfail⟩
    intro va'
    rw [getPhysicalAddr_eq, getPhysicalAddr_eq, mapPage_mapped_fail (by rw [hfail]; decide)]

/-- A directory right after boot, with one page mapped. -/
theorem pageTables_refine_flatMap_boot :
    ((boot.createPageDirectory 1).2.mapPage 1 0x40000000 0x500000 pgPresent).2.getPhysicalAddr 1
      0x40000123 = 0x500123 := by
  have hr : Reaches (tableStep 1) (fun _ _ => True) ((boot.createPageDirectory 1).2, []) _ :=
    .tail (a := .map 0x40000000 0x500000 pgPresent) .refl trivial rfl
  have h := (pageTables_refine_flatMap (show boot.createPageDirectory 1 = (true, _) from rfl) hr).1 0x40000123
  exact h.trans (by decide)

/-- Frame 0 mapped and unmapped, then a page in a region without a table: the
call returns -1 and has taken frame 0. -/
theorem mapPage_fails_and_takes_frame_zero :
    ∃ k es, Reaches (tableStep 1) (fun _ _ => True) ((boot.createPageDirectory 1).2, []) (k, es) ∧
      (k.mapPage 1 0x80000000 0x500000 pgPresent).1 = -1 ∧
      (k.mapPage 1 0x80000000 0x500000 pgPresent).2.frameBitmap ≠ k.frameBitmap ∧
      (k.mapPage 1 0x80000000 0x500000 pgPresent).2.framesUsed ≠ k.framesUsed := by
  have h1 : Reaches (tableStep 1) (fun _ _ => True) ((boot.createPageDirectory 1).2, []) _ :=
    .tail (a := .map 0x40000000 0 pgPresent) .refl trivial rfl
  have h2 := Reaches.tail (a := .unmap 0x40000000) h1 trivial rfl
  refine ⟨_, _, h2, by decide, ?_, by decide⟩
  intro h
  have hbit := congrArg (fun w => Words.testBit w 0) h
  exact absurd hbit (by decide)

end KmOS
