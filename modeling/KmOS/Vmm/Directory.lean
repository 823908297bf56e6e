/-
# `KmOS.Vmm.Directory` — creating and destroying page directories

`create_page_directory` takes a frame for the directory itself;
`destroy_page_directory` gives back the frame of every present entry, then the
swap slots, then the directory's own frame.  It does not ask whether another
directory still maps a frame it gives back.
-/
import KmOS.Vmm.PageTable
import KmOS.Swap.Entry

namespace KmOS

/-- The directory entry `create_page_directory` writes 1024 times. -/
def emptyDirectoryEntry : PageDirectoryEntry :=
  { present := false, writable := true, user := false, frame := ⟨0, maxFrames_pos⟩ }

/-- A directory without tables. -/
def emptyDirectory (physicalAddress : Nat) : PageDirectory where
  tables := fun _ => emptyDirectoryEntry
  pageTables := fun _ => none
  physicalAddress := physicalAddress
  swappedPages := []

@[simp] theorem emptyDirectory_mapped (a : Nat) (p : PageNo) :
    (emptyDirectory a).mapped p = none := rfl

namespace Kernel

/-- `VMM::create_page_directory`; `pd` is the address `kmalloc` would return.
The answer is whether it did. -/
def createPageDirectory (k : Kernel) (pd : Nat) : Bool × Kernel :=
  match k.kmalloc with
  | (false, k₁) => (false, k₁)
  | (true, k₁) =>
      let (physAddr, k₂) := k₁.allocFrame
      (true, { k₂ with
        live := insert pd k₂.live
        dir := Function.update k₂.dir pd (emptyDirectory physAddr) })

/-- The inner loop of `destroy_page_directory`. -/
def freeTable (k : Kernel) (t : PageTable) : Kernel :=
  (List.finRange 1024).foldl
    (fun k j => if (t j).present then k.freeFrame ((t j).frame.val <<< 12) else k) k

/-- Its outer loop. -/
def freeTables (k : Kernel) (d : PageDirectory) : Kernel :=
  (List.finRange 1024).foldl
    (fun k i =>
      match d.pageTable i with
      | some t => k.freeTable t
      | none => k) k

/-- `VMM::destroy_page_directory`. -/
def destroyPageDirectory (k : Kernel) (pd : Nat) : Kernel :=
  let d := k.dir pd
  let k₁ := k.freeTables d
  let k₂ := d.swappedPages.foldl (fun k s => k.freeSwapEntry s.swapEntry) k₁
  let k₃ := if d.physicalAddress ≠ 0 then k₂.freeFrame d.physicalAddress else k₂
  { k₃ with live := k₃.live.erase pd }

/-! ## What a teardown gives back -/

theorem foldl_invariant {α : Type} (P : Kernel → Prop) (f : Kernel → α → Kernel)
    (h : ∀ k a, P k → P (f k a)) : ∀ (l : List α) (k : Kernel), P k → P (l.foldl f k)
  | [], _, hk => hk
  | a :: l, k, hk => foldl_invariant P f h l (f k a) (h k a hk)

theorem freeTable_used_from (t : PageTable) (n : Nat) :
    ∀ (l : List (Fin 1024)) (k : Kernel),
      (l.foldl (fun k j =>
        if (t j).present then k.freeFrame ((t j).frame.val <<< 12) else k) k).used n = true ↔
        k.used n = true ∧ ∀ j ∈ l, (t j).present = true → (t j).frame.val ≠ n
  | [], k => by simp
  | j :: l, k => by
      rw [List.foldl_cons, freeTable_used_from t n l]
      have hlt := (t j).frame.isLt
      cases hp : (t j).present with
      | false => simp [hp]
      | true =>
          simp only [if_true, used_freeFrame, frame_shiftLeft_div, List.forall_mem_cons, hp,
            Bool.and_eq_true, Bool.not_eq_true', decide_eq_false_iff_not, hlt, and_true,
            forall_true_left]
          constructor
          · rintro ⟨⟨h1, h2⟩, h3⟩
            exact ⟨h2, fun h => h1 h.symm, h3⟩
          · rintro ⟨h2, h1, h3⟩
            exact ⟨⟨fun h => h1 h.symm, h2⟩, h3⟩

theorem freeTable_used (k : Kernel) (t : PageTable) (n : Nat) :
    (k.freeTable t).used n = true ↔
      k.used n = true ∧ ∀ j, (t j).present = true → (t j).frame.val ≠ n := by
  unfold freeTable
  rw [freeTable_used_from]
  simp

theorem freeTables_used_from (d : PageDirectory) (n : Nat) :
    ∀ (l : List (Fin 1024)) (k : Kernel),
      (l.foldl (fun k i =>
        match d.pageTable i with
        | some t => k.freeTable t
        | none => k) k).used n = true ↔
        k.used n = true ∧ ∀ i ∈ l, ∀ t, d.pageTable i = some t →
          ∀ j, (t j).present = true → (t j).frame.val ≠ n
  | [], k => by simp
  | i :: l, k => by
      rw [List.foldl_cons, freeTables_used_from d n l]
      cases hp : d.pageTable i with
      | none => simp [hp]
      | some t =>
          simp only [freeTable_used, List.forall_mem_cons, hp, Option.some.injEq,
            forall_eq']
          exact and_assoc

/-- The bits left after the loops over the tables: those of frames the
directory does not map. -/
theorem freeTables_used (k : Kernel) (d : PageDirectory) (n : Nat) :
    (k.freeTables d).used n = true ↔
      k.used n = true ∧ ∀ p e, d.mapped p = some e → e.frame.val ≠ n := by
  unfold freeTables
  rw [freeTables_used_from]
  refine and_congr Iff.rfl ⟨?_, ?_⟩
  · intro h p e he
    obtain ⟨t, ht, rfl, hp⟩ := PageDirectory.mapped_eq_some.mp he
    exact h p.1 (List.mem_finRange _) t ht p.2 hp
  · intro h i _ t ht j hp
    exact h (i, j) (t j) (PageDirectory.mapped_eq_some.mpr ⟨t, ht, rfl, hp⟩)

@[simp] theorem freeTable_dir (k : Kernel) (t : PageTable) : (k.freeTable t).dir = k.dir := by
  unfold freeTable
  apply foldl_invariant (fun k' => k'.dir = k.dir)
  · intro k' j h
    split
    · rw [freeFrame_dir, h]
    · exact h
  · rfl

@[simp] theorem freeTable_rest (k : Kernel) (t : PageTable) : (k.freeTable t).rest = k.rest := by
  unfold freeTable
  apply foldl_invariant (fun k' => k'.rest = k.rest)
  · intro k' j h
    split
    · rw [freeFrame_rest, h]
    · exact h
  · rfl

@[simp] theorem freeTables_dir (k : Kernel) (d : PageDirectory) :
    (k.freeTables d).dir = k.dir := by
  unfold freeTables
  apply foldl_invariant (fun k' => k'.dir = k.dir)
  · intro k' i h
    split
    · rw [freeTable_dir, h]
    · exact h
  · rfl

@[simp] theorem freeTables_rest (k : Kernel) (d : PageDirectory) :
    (k.freeTables d).rest = k.rest := by
  unfold freeTables
  apply foldl_invariant (fun k' => k'.rest = k.rest)
  · intro k' i h
    split
    · rw [freeTable_rest, h]
    · exact h
  · rfl

/-- Freeing swap slots touches the devices only. -/
theorem freeSwapEntry_frame (k : Kernel) (e : Nat) :
    ∃ devs, k.freeSwapEntry e = { k with swapDevices := devs } := by
  unfold freeSwapEntry
  simp only
  split
  · exact ⟨k.swapDevices, rfl⟩
  · split
    · exact ⟨_, rfl⟩
    · exact ⟨k.swapDevices, rfl⟩

theorem freeSwapEntries_frame : ∀ (l : List SwappedPageEntry) (k : Kernel),
    ∃ devs, l.foldl (fun k s => k.freeSwapEntry s.swapEntry) k = { k with swapDevices := devs }
  | [], k => ⟨k.swapDevices, rfl⟩
  | s :: l, k => by
      obtain ⟨devs, h⟩ := k.freeSwapEntry_frame s.swapEntry
      rw [List.foldl_cons, h]
      obtain ⟨devs', h'⟩ := freeSwapEntries_frame l { k with swapDevices := devs }
      exact ⟨devs', h'⟩

theorem freeFrame_withDevices (k : Kernel) (devs : List SwapDevice) (a : Nat) :
    ({ k with swapDevices := devs }).freeFrame a = { k.freeFrame a with swapDevices := devs } := by
  unfold freeFrame
  simp only
  split <;> rfl

/-- `destroy_page_directory` up to the swap devices: the frames of the
tables, then the directory's own. -/
theorem destroyPageDirectory_eq (k : Kernel) (pd : Nat) :
    ∃ devs, k.destroyPageDirectory pd =
      { (if (k.dir pd).physicalAddress ≠ 0 then
          (k.freeTables (k.dir pd)).freeFrame (k.dir pd).physicalAddress
        else k.freeTables (k.dir pd)) with
        swapDevices := devs, live := k.live.erase pd } := by
  obtain ⟨devs, h⟩ := freeSwapEntries_frame (k.dir pd).swappedPages (k.freeTables (k.dir pd))
  have hr : (k.freeTables (k.dir pd)).rest = k.rest := k.freeTables_rest (k.dir pd)
  refine ⟨devs, ?_⟩
  simp only [destroyPageDirectory, h]
  -- from here on only the record matters, not how its frames were freed
  generalize k.freeTables (k.dir pd) = k₁ at hr
  have hl : k₁.live = k.live := congrArg Rest.live hr
  split
  · have hl' : (k₁.freeFrame (k.dir pd).physicalAddress).live = k.live :=
      (congrArg Rest.live (k₁.freeFrame_rest _)).trans hl
    rw [freeFrame_withDevices, ← hl']
  · rw [← hl]

@[simp] theorem destroyPageDirectory_dir (k : Kernel) (pd : Nat) :
    (k.destroyPageDirectory pd).dir = k.dir := by
  obtain ⟨devs, h⟩ := k.destroyPageDirectory_eq pd
  rw [h]
  show (ite _ _ _ : Kernel).dir = k.dir
  split
  · rw [freeFrame_dir, freeTables_dir]
  · rw [freeTables_dir]

@[simp] theorem destroyPageDirectory_live (k : Kernel) (pd : Nat) :
    (k.destroyPageDirectory pd).live = k.live.erase pd := by
  obtain ⟨devs, h⟩ := k.destroyPageDirectory_eq pd
  rw [h]

theorem destroyPageDirectory_cow (k : Kernel) (pd : Nat) :
    (k.destroyPageDirectory pd).cowPages = k.cowPages ∧
      (k.destroyPageDirectory pd).cowMappings = k.cowMappings := by
  obtain ⟨devs, h⟩ := k.destroyPageDirectory_eq pd
  have hr : (ite ((k.dir pd).physicalAddress ≠ 0)
      ((k.freeTables (k.dir pd)).freeFrame (k.dir pd).physicalAddress)
      (k.freeTables (k.dir pd)) : Kernel).rest = k.rest := by
    split
    · rw [freeFrame_rest, freeTables_rest]
    · rw [freeTables_rest]
  rw [h]
  exact ⟨congrArg Rest.cowPages hr, congrArg Rest.cowMappings hr⟩

/-- **What a teardown gives back**: the bit of every frame the directory maps
and of its own frame, and no other. -/
theorem destroyPageDirectory_used (k : Kernel) (pd n : Nat) :
    (k.destroyPageDirectory pd).used n = true ↔
      k.used n = true ∧ (∀ p e, k.mapped pd p = some e → e.frame.val ≠ n) ∧
      ¬ ((k.dir pd).physicalAddress ≠ 0 ∧ (k.dir pd).physicalAddress / frameSize = n ∧
        n < maxFrames) := by
  obtain ⟨devs, h⟩ := k.destroyPageDirectory_eq pd
  rw [h]
  show (ite _ _ _ : Kernel).used n = true ↔ _
  by_cases hz : (k.dir pd).physicalAddress = 0
  · simp only [hz, ne_eq, not_true_eq_false, if_false, freeTables_used, false_and,
      not_false_eq_true, and_true]
    exact Iff.rfl
  · simp only [hz, ne_eq, not_false_eq_true, if_true, used_freeFrame, Bool.and_eq_true,
      Bool.not_eq_true', decide_eq_false_iff_not, freeTables_used, true_and]
    constructor
    · rintro ⟨h1, h2, h3⟩
      exact ⟨h2, h3, fun ⟨ha, hb⟩ => h1 ⟨ha.symm, ha ▸ hb⟩⟩
    · rintro ⟨h2, h3, h1⟩
      exact ⟨fun ⟨ha, hb⟩ => h1 ⟨ha.symm, ha ▸ hb⟩, h2, h3⟩

end Kernel

end KmOS
