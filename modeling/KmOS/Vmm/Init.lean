/-
# `KmOS.Vmm.Init` — the state `VMM::init` leaves

`VMM::init` marks the frames below `PHYS_MEM_START`, makes the kernel
directory, maps the first 4 MiB onto themselves and then the kernel heap, page
by page, onto frames from `alloc_frame`.  The initialisation of the other
allocators, which follows, touches neither the bitmap nor the directories.

Two facts about that state are used: the frames in use are counted
(`vmmInit_counted`), and there are frames to spare (`Roomy`), so that the
calls of a concrete run can be followed without evaluating 2560 mappings.
-/
import KmOS.Vmm.FrameCount

namespace KmOS

namespace Kernel

/-- One turn of the loop that maps low memory onto itself. -/
def mapIdentityPage (kd : Nat) (k : Kernel) (i : Nat) : Kernel :=
  (k.mapPage kd (i * frameSize) (i * frameSize) (pgPresent ||| pgWrite)).2

/-- One turn of the loop that maps the kernel heap. -/
def mapHeapPage (kd : Nat) (k : Kernel) (i : Nat) : Kernel :=
  let (frame, k₁) := k.allocFrame
  if frame ≠ 0 then
    (k₁.mapPage kd (kernHeap + i * frameSize) frame (pgPresent ||| pgWrite)).2
  else k₁

/-- The two loops, on the directory just made. -/
def mapKernel (kd : Nat) (k : Kernel) : Kernel :=
  let k₁ := (List.range (0x400000 / frameSize)).foldl (mapIdentityPage kd) k
  let k₂ := (List.range ((kernHeapLim - kernHeap) / frameSize)).foldl (mapHeapPage kd) k₁
  { k₂ with currentDirectory := kd }

/-- The frame set-up, with the answers `kmalloc` will give. -/
def bootWith (answers : List Bool) : Kernel := { boot with kmallocs := answers }

/-- `VMM::init`; `kd` is the address of the kernel directory.  There is no
state when `kmalloc` has no room for it: the code goes on with a null. -/
def vmmInit (kd : Nat) (answers : List Bool) : Option Kernel :=
  match (bootWith answers).createPageDirectory kd with
  | (false, _) => none
  | (true, k) => some (mapKernel kd k)

/-- What survives taking a frame and mapping a page survives the two loops. -/
theorem mapKernel_invariant {P : Kernel → Prop} {kd : Nat}
    (halloc : ∀ k, P k → P k.allocFrame.2)
    (hmap : ∀ k va pa flags, P k → P (k.mapPage kd va pa flags).2)
    (hcur : ∀ k, P k → P { k with currentDirectory := kd })
    {k : Kernel} (hk : P k) : P (mapKernel kd k) := by
  apply hcur
  apply foldl_invariant P
  · intro k i hk
    unfold mapHeapPage
    simp only
    split
    · exact hmap _ _ _ _ (halloc k hk)
    · exact halloc k hk
  · apply foldl_invariant P
    · intro k i hk
      exact hmap k _ _ _ hk
    · exact hk

/-- What holds at boot and survives making a directory, taking a frame and
mapping a page holds after `VMM::init`. -/
theorem vmmInit_invariant {P : Kernel → Prop} {kd : Nat} {answers : List Bool} {k : Kernel}
    (hboot : P (bootWith answers))
    (hcreate : ∀ k, P k → P (k.createPageDirectory kd).2)
    (halloc : ∀ k, P k → P k.allocFrame.2)
    (hmap : ∀ k va pa flags, P k → P (k.mapPage kd va pa flags).2)
    (hcur : ∀ k, P k → P { k with currentDirectory := kd })
    (h : vmmInit kd answers = some k) : P k := by
  have hk := hcreate _ hboot
  unfold vmmInit at h
  rcases hc : (bootWith answers).createPageDirectory kd with ⟨_ | _, k₀⟩
  · rw [hc] at h
    exact absurd h (by simp)
  · rw [hc] at h hk
    rw [← Option.some.inj h]
    exact mapKernel_invariant halloc hmap hcur hk

/-! ## The frames in use are counted -/

/-- The bits set at boot are those of the frames below `PHYS_MEM_START`. -/
theorem boot_used (i : Nat) : boot.used i = decide (i < 256) := by
  have hm : i % 32 < 32 := Nat.mod_lt _ (by decide)
  have hw : boot.frameBitmap (i / 32) = if i / 32 < 8 then 0xFFFFFFFF#32 else 0#32 := rfl
  unfold used Words.testBit
  rw [hw]
  by_cases hi : i < 256
  · rw [if_pos (by omega)]
    have hall : (0xFFFFFFFF#32 : BitVec 32) = BitVec.allOnes 32 := by decide
    rw [hall, BitVec.getLsbD_allOnes]
    simp [hi, hm]
  · rw [if_neg (by omega)]
    simp [hi]

theorem boot_count : boot.frameBitmap.count maxFrames = 256 := by
  have hset : (Finset.range maxFrames).filter (fun i => boot.frameBitmap.testBit i = true) =
      Finset.range 256 := by
    ext i
    have hu : boot.frameBitmap.testBit i = decide (i < 256) := boot_used i
    simp only [Finset.mem_filter, Finset.mem_range, hu, decide_eq_true_eq, maxFrames]
    omega
  unfold Words.count
  rw [hset, Finset.card_range]

theorem boot_counted (answers : List Bool) : Counted (bootWith answers) :=
  boot_count.symm

theorem vmmInit_counted {kd : Nat} {answers : List Bool} {k : Kernel}
    (h : vmmInit kd answers = some k) : Counted k :=
  vmmInit_invariant (boot_counted answers) (fun _ hk => counted_createPageDirectory hk kd)
    (fun _ hk => counted_allocFrame hk) (fun _ va pa flags hk => counted_mapPage hk kd va pa flags)
    (fun _ hk => hk.of_books rfl) h

/-- No copy-on-write mapping record is made. -/
theorem vmmInit_cowMappings {kd : Nat} {answers : List Bool} {k : Kernel}
    (h : vmmInit kd answers = some k) : k.cowMappings = [] := by
  refine vmmInit_invariant (P := fun k => k.cowMappings = []) rfl ?_ ?_ ?_ (fun _ hk => hk) h
  · intro k hk
    have hr := k.kmalloc_rest
    unfold createPageDirectory
    rcases hm : k.kmalloc with ⟨_ | _, k₁⟩
    · rw [hm] at hr
      exact (congrArg Rest.cowMappings hr).trans hk
    · rw [hm] at hr
      exact (congrArg Rest.cowMappings (k₁.allocFrame_rest.trans hr)).trans hk
  · intro k hk
    exact (congrArg Rest.cowMappings k.allocFrame_rest).trans hk
  · intro k va pa flags hk
    exact (congrArg Rest.cowMappings (k.mapPage_rest kd va pa flags)).trans hk

/-! ## There are frames to spare -/

/-- The next `n` frames can be had, `kmalloc` answers yes, and no call is
stuck.  That frame 0 is in use matters: its address would read as a failure. -/
structure Roomy (n : Nat) (k : Kernel) : Prop where
  frameZero : k.used 0 = true
  free : k.frameBitmap.count maxFrames + n ≤ maxFrames
  heap : k.kmallocs = []
  running : k.hung = false

section
variable {k k' : Kernel} {n : Nat}

theorem Roomy.mono (h : Roomy n k) {m : Nat} (hm : m ≤ n) : Roomy m k :=
  ⟨h.frameZero, by have := h.free; omega, h.heap, h.running⟩

theorem Roomy.kmalloc (h : Roomy n k) : k.kmalloc = (true, k) := by
  unfold Kernel.kmalloc
  rw [h.heap]

/-- A change that leaves the bitmap, the answers and `hung` alone. -/
theorem Roomy.keep (h : Roomy n k) (hb : k'.frameBitmap = k.frameBitmap)
    (hk : k'.kmallocs = k.kmallocs) (hh : k'.hung = k.hung) : Roomy n k' := by
  refine ⟨?_, ?_, hk.trans h.heap, hh.trans h.running⟩
  · unfold used
    rw [hb]
    exact h.frameZero
  · rw [hb]
    exact h.free

theorem Roomy.withCurrent (h : Roomy n k) (pd : Nat) : Roomy n { k with currentDirectory := pd } :=
  h.keep rfl rfl rfl

theorem Roomy.allocFrame (h : Roomy (n + 1) k) : k.allocFrame.1 ≠ 0 ∧ Roomy n k.allocFrame.2 := by
  have hfree := h.free
  rcases k.allocFrame_cases with ⟨_, hall⟩ | ⟨i, hi, hu, _, he⟩
  · -- a full bitmap has no room
    have hz := k.frameBitmap.card_clear maxFrames
    have hnone : (Finset.range maxFrames).filter (fun i => k.frameBitmap.testBit i = false) = ∅ := by
      apply Finset.filter_eq_empty_iff.mpr
      intro i hi hf
      have := hall i (Finset.mem_range.mp hi)
      unfold used at this
      rw [this] at hf
      exact absurd hf (by decide)
    rw [hnone, Finset.card_empty] at hz
    omega
  · rw [he]
    have hne : i ≠ 0 := by
      rintro rfl
      rw [h.frameZero] at hu
      exact absurd hu (by decide)
    refine ⟨?_, ?_, ?_, h.heap, h.running⟩
    · simp only [frameSize]
      omega
    · have hold : k.frameBitmap.testBit 0 = true := h.frameZero
      simp [used, takeFrame, Words.testBit_setBit, hold]
    · simp only [takeFrame]
      rw [Words.count_setBit hi hu]
      omega

theorem Roomy.setEntry (h : Roomy n k) (pd va : Nat) (e : PageTableEntry) :
    Roomy n (k.setEntry pd va e) := by
  refine h.keep (setEntry_frameBitmap k pd va e) ?_ ?_
  · unfold Kernel.setEntry
    simp only
    split <;> rfl
  · unfold Kernel.setEntry
    simp only
    split <;> rfl

theorem Roomy.setWritable (h : Roomy n k) (pd va : Nat) (b : Bool) :
    Roomy n (k.setWritable pd va b) := by
  unfold Kernel.setWritable
  split
  · exact h
  · exact h.setEntry pd va _

theorem Roomy.mapPage (h : Roomy (n + 1) k) (pd va pa flags : Nat) :
    Roomy n (k.mapPage pd va pa flags).2 := by
  obtain ⟨hne, ha⟩ := h.allocFrame
  have hk := ha.kmalloc
  have hg : Roomy n (k.getPageTable pd va true).2 := by
    rcases k.getPageTable_cases pd va with ⟨_, he⟩ | ⟨_, hz, _⟩ | ⟨_, _, hf, _⟩ | ⟨_, _, _, he⟩
    · rw [he]
      exact h.mono (Nat.le_succ n)
    · exact absurd hz hne
    · rw [hk] at hf
      exact absurd hf (by simp)
    · rw [he, hk]
      exact ha.keep rfl rfl rfl
  rcases k.mapPage_cases pd va pa flags with ⟨_, he⟩ | ⟨t, _, he⟩
  · rw [he]
    exact hg
  · rw [he]
    exact hg.setEntry pd va _

theorem Roomy.createPageDirectory (h : Roomy (n + 1) k) (pd : Nat) :
    (k.createPageDirectory pd).1 = true ∧ Roomy n (k.createPageDirectory pd).2 ∧
      (k.createPageDirectory pd).2.live = insert pd k.live ∧
      (k.createPageDirectory pd).2.dir =
        Function.update k.dir pd (emptyDirectory k.allocFrame.1) := by
  have hl : k.allocFrame.2.live = k.live := congrArg Rest.live k.allocFrame_rest
  have hd : k.allocFrame.2.dir = k.dir := k.allocFrame_dir
  unfold Kernel.createPageDirectory
  rw [h.kmalloc]
  refine ⟨rfl, h.allocFrame.2.keep rfl rfl rfl, ?_, ?_⟩
  · show insert pd k.allocFrame.2.live = insert pd k.live
    rw [hl]
  · show Function.update k.allocFrame.2.dir pd _ = _
    rw [hd]

/-- A loop whose turns take `c` frames each. -/
theorem Roomy.foldl {f : Kernel → Nat → Kernel} {c : Nat}
    (hf : ∀ k i n, Roomy (n + c) k → Roomy n (f k i)) :
    ∀ (l : List Nat) (k : Kernel), Roomy (n + c * l.length) k → Roomy n (l.foldl f k)
  | [], _, hk => hk
  | i :: l, k, hk => by
      rw [List.length_cons, Nat.mul_succ, ← Nat.add_assoc] at hk
      exact Roomy.foldl hf l (f k i) (hf k i _ hk)

end

theorem boot_roomy : Roomy (maxFrames - 256) (bootWith []) where
  frameZero := (boot_used 0 : boot.used 0 = _)
  free := by
    have h : (bootWith []).frameBitmap.count maxFrames = 256 := boot_count
    rw [h]
    simp only [maxFrames]
    omega
  heap := rfl
  running := rfl

theorem Roomy.mapKernel {n kd : Nat} {k : Kernel}
    (h : Roomy (n + 2 * ((kernHeapLim - kernHeap) / frameSize) + 1 * (0x400000 / frameSize)) k) :
    Roomy n (mapKernel kd k) := by
  apply Roomy.withCurrent
  refine Roomy.foldl (c := 2) ?_ _ _ ?_
  · intro k i n hk
    obtain ⟨hne, ha⟩ := Roomy.allocFrame (n := n + 1) hk
    unfold mapHeapPage
    simp only
    rw [if_pos hne]
    exact ha.mapPage _ _ _ _
  · rw [List.length_range]
    refine Roomy.foldl (c := 1) (fun k i n hk => hk.mapPage _ _ _ _) _ _ ?_
    rw [List.length_range]
    exact h

/-- With a heap that answers, `VMM::init` comes back, the kernel directory is
the only one, and thousands of frames are left. -/
theorem vmmInit_roomy (kd : Nat) :
    ∃ k, vmmInit kd [] = some k ∧ Roomy 1000 k ∧ k.live = {kd} := by
  have hr : Roomy (1000 + 2 * ((kernHeapLim - kernHeap) / frameSize) +
      1 * (0x400000 / frameSize) + 1) (bootWith []) :=
    boot_roomy.mono (by decide)
  obtain ⟨hok, hk, hlive, _⟩ := hr.createPageDirectory kd
  rcases hc : (bootWith []).createPageDirectory kd with ⟨ok, k₀⟩
  rw [hc] at hok hk hlive
  simp only at hok hk hlive
  subst hok
  have hl : (mapKernel kd k₀).live = k₀.live :=
    mapKernel_invariant (P := fun k => k.live = k₀.live)
      (fun k h => (congrArg Rest.live k.allocFrame_rest).trans h)
      (fun k va pa flags h => (congrArg Rest.live (k.mapPage_rest kd va pa flags)).trans h)
      (fun _ h => h) rfl
  refine ⟨mapKernel kd k₀, ?_, hk.mapKernel, ?_⟩
  · unfold vmmInit
    rw [hc]
  · rw [hl, hlive]
    rfl

end Kernel

end KmOS
