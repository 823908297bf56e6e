/-
# `KmOS.Cow.FrameAccounting` — `frames_used` over whole runs

## What is proved

A run starts in the state `VMM::init` leaves and makes any sequence of
`alloc_frame`, `create_page_directory`, `map_pages`, `cow_copy_page_range`,
`handle_cow_fault`, `cow_free_page_range`, `unmap_page`,
`destroy_page_directory` and process teardowns.  As long as every frame a call
frees is in use at that moment, `frames_used` is the number of set bits of
`frame_bitmap` in every state reached, and `free_pages` is the number of clear
ones (`frames_used_exact`).

Where a call can free a frame:

    unmap_page               the frame of the page
    cow_free_page_range      the frame of each page, and once more when the
                             page's record is down to one reference
    a write fault            the old frame, when the page is copied
    destroy_page_directory   the frame of every page, and its own

Mapping and forking need no condition.

## What is not

`unmap_page` asks nobody before it frees.  A process and its child have a page
on one frame after the fork, and unmapping it in both takes two off
`frames_used` for one bit (`two_unmaps_lose_count`).
-/
import KmOS.Lib.Run
import KmOS.Cow.Effects
import KmOS.Vmm.Init

namespace KmOS

open Kernel

/-! ## Statement -/

/-- The calls the frame books see. -/
inductive FrameCall where
  | alloc
  | cow (c : CowCall)

/-- One step of a run; `alloc_frame` asks the heap nothing. -/
def frameStep (k : Kernel) (c : List Bool × FrameCall) : Option Kernel :=
  match c.2 with
  | .alloc => if k.allocFrame.2.hung then none else some k.allocFrame.2
  | .cow c' => cowStep k (c.1, c')

/-- One page of `cow_free_page_range`: its frame is in use, and no record is
about to free it a first time. -/
def FreesOnce (pd addr : Nat) (k : Kernel) : Prop :=
  k.getPhysicalAddr pd addr ≠ 0 → PageMarked k pd addr ∧
    ∀ c, k.findCowPage (k.getPhysicalAddr pd addr) = some c → 1 < c.refCount

/-- Every frame the call frees is in use when it is freed. -/
def CowCall.FreesMarked (k : Kernel) : CowCall → Prop
  | .create _ | .mapPages _ _ _ _ _ | .copy _ _ _ _ _ => True
  | .fault pd va errorCode =>
      errorCode &&& 2 ≠ 0 → ∀ e c, k.mapped pd (pageOf va) = some e →
        k.findCowPage (e.frame.val * 4096) = some c → 1 < c.refCount → k.allocFrame.1 ≠ 0 →
          k.used e.frame.val = true ∨ k.allocFrame.1 = e.frame.val * frameSize
  | .free pd start stop fuel => LoopOk (freePage pd) (FreesOnce pd) stop fuel start k
  | .unmap pd va => PageMarked k pd va
  | .destroy pd | .teardown pd => TeardownMarked k pd

/-- The condition on a step of a run. -/
def FreesMarkedStep (k : Kernel) (c : List Bool × FrameCall) : Prop :=
  match c.2 with
  | .alloc => True
  | .cow c' => c'.FreesMarked (k.withAnswers c.1)

/-! ## One call -/

section
variable {k k' : Kernel}

theorem protectPage_books (k : Kernel) (src addr : Nat) (e : PageTableEntry) (pa : Nat) :
    (k.protectPage src addr e pa).2.books = k.books := by
  unfold protectPage
  split
  · obtain ⟨cs, answers, hs⟩ := (k.setWritable src addr false).shareCow_frame pa
    rw [hs]
    exact k.setWritable_books src addr false
  · rfl

theorem counted_mapFreshPage (h : Counted k) (pd flags addr : Nat) :
    Counted (mapFreshPage pd flags addr k).2 := by
  have ha := counted_allocFrame h
  have hm := counted_mapPage ha pd addr k.allocFrame.1 flags
  rcases k.mapFreshPage_cases pd flags addr with ⟨_, he⟩ | ⟨_, _, he⟩ | ⟨hz, _, he⟩
  · rw [he]
    exact ha
  · rw [he]
    exact hm
  · -- the frame taken for the page goes back with its bit still set
    obtain ⟨i, _, _, _, _, hal⟩ := allocFrame_of_ne_zero hz
    have hdiv : k.allocFrame.1 / frameSize = i := by
      rw [hal]
      exact Nat.mul_div_cancel _ (by decide)
    rw [he]
    apply hm.freeFrame
    rw [hdiv]
    apply mapPage_used
    rw [hal]
    exact Words.testBit_setBit_self _ _

theorem counted_copyPage (h : Counted k) (dst src addr : Nat) :
    Counted (copyPage dst src addr k).2 := by
  rcases k.copyPage_cases dst src addr with ⟨_, he⟩ | ⟨e, pa, _, _, _, hcases⟩
  · rw [he]
    exact h
  have hp : Counted (k.protectPage src addr e pa).2 := h.of_books (protectPage_books k src addr e pa)
  have hm := counted_mapPage hp dst addr pa (passedFlags e)
  rcases hcases with ⟨_, he⟩ | ⟨_, _, he⟩ | ⟨_, _, he⟩
  · rw [he]
    exact hp
  · rw [he]
    exact hm
  · rw [he]
    exact hm

/-- A reference that is not the last one frees nothing. -/
theorem decCowRef_books {pa : Nat} (h : ∀ c, k.findCowPage pa = some c → 1 < c.refCount) :
    (k.decCowRef pa).books = k.books := by
  cases hf : k.findCowPage pa with
  | none =>
      unfold decCowRef
      rw [hf]
  | some c =>
      have hc := h c hf
      rw [decCowRef_of_find hf, if_neg (by omega)]
      rfl

theorem counted_freePage (h : Counted k) {pd addr : Nat} (hok : FreesOnce pd addr k) :
    Counted (freePage pd addr k).2 := by
  rcases k.freePage_cases pd addr with he | ⟨e, hm, hz, he⟩
  · rw [he]
    exact h
  have hpa := getPhysicalAddr_of_mapped hm
  obtain ⟨hmark, href⟩ := hok (by rw [hpa]; exact hz)
  rw [hpa] at href
  have hb := decCowRef_books href
  rw [he]
  refine (counted_unmapPage_iff (h.of_books hb) pd addr).mpr ?_
  intro e' he'
  rw [mapped_congr (decCowRef_dir _)] at he'
  rw [used_of_books hb]
  exact hmark e' he'

theorem counted_fault (h : Counted k) {pd va errorCode : Nat}
    (hok : CowCall.FreesMarked k (.fault pd va errorCode)) :
    Counted (k.handleCowFault pd va errorCode).2 := by
  have ha := counted_allocFrame h
  rcases k.handleCowFault_cases pd va errorCode with
    he | ⟨e, hm, _, hw, ⟨_, he⟩ | ⟨c, hc, href, ⟨_, he⟩ | ⟨hz, he⟩⟩⟩
  · rw [he]
    exact h
  · rw [he]
    exact h.of_books (k.setWritable_books _ _ _)
  · rw [he]
    exact ha
  -- the copying branch: take a frame, free the old one, and drop a reference
  have hold : k.allocFrame.2.used e.frame.val = true := by
    rcases hok hw e c hm hc href hz with hu | heq
    · exact used_allocFrame_of_used hu
    · obtain ⟨i, _, _, _, _, hal⟩ := allocFrame_of_ne_zero hz
      rw [hal] at heq
      have hi : e.frame.val = i := (Nat.eq_of_mul_eq_mul_right (by decide) heq).symm
      rw [hal, hi]
      exact Words.testBit_setBit_self _ _
  rw [he]
  show Counted (brokenShare _ _ _ _ _)
  unfold brokenShare
  generalize hk₁ : k.allocFrame.2.copyFrame k.allocFrame.1 (e.frame.val * 4096) = k₁
  have hb₁ : k₁.books = k.allocFrame.2.books := by
    rw [← hk₁]
    rfl
  have hm₁ : k₁.mapped pd (pageOf (pageAddr va)) = some e := by
    rw [← hk₁, pageOf_pageAddr, ← hm]
    exact mapped_congr k.allocFrame_dir pd _
  have h₂ : Counted (k₁.unmapPage pd (pageAddr va)) := by
    refine (counted_unmapPage_iff (ha.of_books hb₁) pd (pageAddr va)).mpr ?_
    intro e' he'
    rw [hm₁] at he'
    cases he'
    rw [used_of_books hb₁]
    exact hold
  have h₃ := counted_mapPage h₂ pd (pageAddr va) k.allocFrame.1 brokenFlags
  refine h₃.of_books (decCowRef_books ?_)
  -- the record is the one the fault found
  intro c' hc'
  have hcow : ((k₁.unmapPage pd (pageAddr va)).mapPage pd (pageAddr va) k.allocFrame.1
      brokenFlags).2.cowPages = k.cowPages := by
    have h1 := congrArg Rest.cowPages ((mapPage_rest (k₁.unmapPage pd (pageAddr va)) pd
      (pageAddr va) k.allocFrame.1 brokenFlags).trans (k₁.unmapPage_rest pd (pageAddr va)))
    have h2 : k₁.cowPages = k.cowPages := by
      rw [← hk₁]
      exact congrArg Rest.cowPages k.allocFrame_rest
    exact h1.trans h2
  unfold findCowPage at hc hc'
  rw [hcow, hc] at hc'
  cases hc'
  exact href

/-- No call makes a mapping record. -/
theorem exec_cowMappings (h : k.cowMappings = []) (c : CowCall) : (c.exec k).cowMappings = [] := by
  have hrest : ∀ {k k' : Kernel}, k'.rest = k.rest → k.cowMappings = [] → k'.cowMappings = [] :=
    fun hr h => (congrArg Rest.cowMappings hr).trans h
  have howners : ∀ {k k' : Kernel}, k'.owners = k.owners → k.cowMappings = [] →
      k'.cowMappings = [] := fun ho h => (congrArg Owners.cowMappings ho).trans h
  cases c with
  | create pd => exact (k.createPageDirectory_cow pd).2.trans h
  | mapPages pd start stop flags fuel =>
      refine pageLoop_preserves (P := fun k => k.cowMappings = []) (fun _ hk => hk) ?_ fuel start k h
      intro addr k hk
      have ha := hrest k.allocFrame_rest hk
      have hm := hrest (k.allocFrame.2.mapPage_rest pd addr k.allocFrame.1 flags) ha
      rcases k.mapFreshPage_cases pd flags addr with ⟨_, he⟩ | ⟨_, _, he⟩ | ⟨_, _, he⟩
      · rw [he]
        exact ha
      · rw [he]
        exact hm
      · rw [he]
        exact hrest (freeFrame_rest _ _) hm
  | copy dst src start stop fuel =>
      refine pageLoop_preserves (P := fun k => k.cowMappings = []) (fun _ hk => hk) ?_ fuel start k h
      intro addr k hk
      rcases k.copyPage_cases dst src addr with ⟨_, he⟩ | ⟨e, pa, _, _, _, hcases⟩
      · rw [he]
        exact hk
      have hp : (k.protectPage src addr e pa).2.cowMappings = [] :=
        howners (protectPage_owners e pa) hk
      have hm := hrest (mapPage_rest (k.protectPage src addr e pa).2 dst addr pa (passedFlags e)) hp
      rcases hcases with ⟨_, he⟩ | ⟨_, _, he⟩ | ⟨_, _, he⟩
      · rw [he]
        exact hp
      · rw [he]
        exact hm
      · rw [he]
        exact hm
  | fault pd va errorCode =>
      have ha := hrest k.allocFrame_rest h
      show (k.handleCowFault pd va errorCode).2.cowMappings = []
      rcases k.handleCowFault_cases pd va errorCode with
        he | ⟨e, _, _, _, ⟨_, he⟩ | ⟨c, _, _, ⟨_, he⟩ | ⟨_, he⟩⟩⟩
      · rw [he]
        exact h
      · rw [he]
        exact hrest (k.setWritable_rest _ _ _) h
      · rw [he]
        exact ha
      · rw [he]
        exact howners (brokenShare_owners _ _ _ _) ha
  | free pd start stop fuel =>
      refine pageLoop_preserves (P := fun k => k.cowMappings = []) (fun _ hk => hk) ?_ fuel start k h
      intro addr k hk
      rcases k.freePage_cases pd addr with he | ⟨e, _, _, he⟩
      · rw [he]
        exact hk
      · rw [he]
        exact hrest (unmapPage_rest _ pd addr) (howners (decCowRef_owners _) hk)
  | unmap pd va => exact hrest (k.unmapPage_rest pd va) h
  | destroy pd => exact (k.destroyPageDirectory_cow pd).2.trans h
  | teardown pd =>
      show (k.teardown pd).cowMappings = []
      rw [teardown_nil h]
      exact (k.destroyPageDirectory_cow pd).2.trans h

/-- A call that frees marked frames only keeps the count. -/
theorem counted_exec (h : Counted k) (hcow : k.cowMappings = []) {c : CowCall}
    (hs : c.FreesMarked k) : Counted (c.exec k) := by
  have hang : ∀ k : Kernel, Counted k → Counted { k with hung := true } :=
    fun _ hk => hk.of_books rfl
  cases c with
  | create pd => exact counted_createPageDirectory h pd
  | mapPages pd start stop flags fuel =>
      exact pageLoop_preserves hang (fun addr _ hk => counted_mapFreshPage hk pd flags addr)
        fuel start k h
  | copy dst src start stop fuel =>
      exact pageLoop_preserves hang (fun addr _ hk => counted_copyPage hk dst src addr)
        fuel start k h
  | fault pd va errorCode => exact counted_fault h hs
  | free pd start stop fuel =>
      exact pageLoop_invariant hang (fun addr _ hk hok => counted_freePage hk hok)
        fuel start k hs h
  | unmap pd va => exact (counted_unmapPage_iff h pd va).mpr hs
  | destroy pd => exact counted_destroyPageDirectory h hs
  | teardown pd =>
      show Counted (k.teardown pd)
      rw [teardown_nil hcow]
      exact counted_destroyPageDirectory h hs

/-- **What a step is**: `alloc_frame`, or a step of the copy-on-write runs. -/
theorem frameStep_cases {c : List Bool × FrameCall} (h : frameStep k c = some k') :
    (c.2 = .alloc ∧ k' = k.allocFrame.2) ∨ ∃ c', c.2 = .cow c' ∧ cowStep k (c.1, c') = some k' := by
  obtain ⟨answers, _ | c'⟩ := c
  · refine Or.inl ⟨rfl, ?_⟩
    simp only [frameStep] at h
    split at h
    · exact absurd h (by simp)
    · exact (Option.some.inj h).symm
  · exact Or.inr ⟨c', rfl, h⟩

/-- **One step.** -/
theorem counted_step {c : List Bool × FrameCall} (h : Counted k ∧ k.cowMappings = [])
    (hs : FreesMarkedStep k c) (hstep : frameStep k c = some k') :
    Counted k' ∧ k'.cowMappings = [] := by
  rcases frameStep_cases hstep with ⟨_, rfl⟩ | ⟨c', hc', hcow⟩
  · exact ⟨counted_allocFrame h.1, (congrArg Rest.cowMappings k.allocFrame_rest).trans h.2⟩
  · obtain ⟨_, rfl⟩ := cowStep_eq_some hcow
    have hs' : c'.FreesMarked (k.withAnswers c.1) := by
      unfold FreesMarkedStep at hs
      rw [hc'] at hs
      exact hs
    exact ⟨counted_exec (k := k.withAnswers c.1) (h.1.of_books rfl) h.2 hs',
      exec_cowMappings (k := k.withAnswers c.1) h.2 c'⟩

end

/-! ## The result -/

/-- **Frame accounting**, for runs that free no frame that is free already. -/
theorem frames_used_exact {kd : Nat} {answers : List Bool} {k₀ k : Kernel}
    (h0 : vmmInit kd answers = some k₀) (hr : Reaches frameStep FreesMarkedStep k₀ k) :
    k.framesUsed.toNat = ((Finset.range maxFrames).filter (fun i => k.used i = true)).card ∧
    k.freePages.toNat = ((Finset.range maxFrames).filter (fun i => k.used i = false)).card := by
  have h : Counted k ∧ k.cowMappings = [] :=
    hr.invariant (I := fun k => Counted k ∧ k.cowMappings = [])
      ⟨vmmInit_counted h0, vmmInit_cowMappings h0⟩
      (fun _ _ _ hk hs hstep => counted_step hk hs hstep)
  exact ⟨h.1, h.1.freePages⟩

/-! ## A fork, followed step by step

The kernel has mapped 2560 pages before the first process exists, so the run
is followed with the lemmas above and not evaluated. -/

section
variable {k : Kernel} {n : Nat}

theorem Kernel.Roomy.withAnswers (h : Roomy n k) : Roomy n (k.withAnswers []) :=
  h.keep rfl h.heap.symm rfl

/-- A call that may be made and is not stuck is a step. -/
theorem frameStep_cow {c : CowCall} (ha : c.Admissible k)
    (hh : (c.exec (k.withAnswers [])).hung = false) :
    frameStep k ([], .cow c) = some (c.exec (k.withAnswers [])) :=
  cowStep_eq (c := ([], c)) ha hh

/-- The loop over a range of one page. -/
theorem pageLoop_one {body : Nat → Kernel → Option Int × Kernel}
    (h : (body userOffset k).1 = none) :
    pageLoop body (userOffset + 4096) 2 userOffset k = (0, (body userOffset k).2) := by
  have hnext : ¬ (userOffset + 4096) % 2 ^ 32 < userOffset + 4096 := by decide
  rcases hb : body userOffset k with ⟨_ | r, k'⟩
  · simp only [pageLoop, hb, Nat.lt_add_of_pos_right (show 0 < 4096 by decide), if_true, hnext,
      if_false]
  · rw [hb] at h
    exact absurd h (by simp)

/-- `map_page` where there is no table yet. -/
theorem Kernel.Roomy.mapPage_fresh (h : Roomy (n + 1) k) (pd va pa flags : Nat)
    (ht : ((k.dir pd).tables (pdIndex va)).present = false) :
    (k.mapPage pd va pa flags).1 = 0 := by
  obtain ⟨hne, ha⟩ := h.allocFrame
  refine (tableRoom_iff pd va pa flags).mp (Or.inr ⟨ht, hne, ?_⟩)
  rw [ha.kmalloc]

theorem Kernel.Roomy.mapsFresh (h : Roomy (n + 2) k) (pd addr flags : Nat)
    (hf : flags &&& pgPresent ≠ 0)
    (ht : ((k.dir pd).tables (pdIndex addr)).present = false) :
    (mapFreshPage pd flags addr k).1 = none ∧ Roomy n (mapFreshPage pd flags addr k).2 ∧
      ∃ e, (mapFreshPage pd flags addr k).2.mapped pd (pageOf addr) = some e ∧ e.frame.val ≠ 0 ∧
        (mapFreshPage pd flags addr k).2.used e.frame.val = true := by
  obtain ⟨hne, ha⟩ := Roomy.allocFrame (n := n + 1) h
  have hr : (k.allocFrame.2.mapPage pd addr k.allocFrame.1 flags).1 = 0 := by
    apply ha.mapPage_fresh
    rw [allocFrame_dir]
    exact ht
  have hp : (newEntry k.allocFrame.1 flags).present = true := by
    simpa [newEntry] using hf
  rcases k.mapFreshPage_cases pd flags addr with ⟨hz, _⟩ | ⟨_, _, he⟩ | ⟨_, hr', _⟩
  · exact absurd hz hne
  · rw [he]
    obtain ⟨i, hpos, hi, _, _, hal⟩ := allocFrame_of_ne_zero hne
    have hfr : (frameOf k.allocFrame.1).val = i := by
      rw [hal, frameOf_mul, Nat.mod_eq_of_lt hi]
    refine ⟨rfl, ha.mapPage _ _ _ _, newEntry k.allocFrame.1 flags, ?_, ?_, ?_⟩
    · rw [mapPage_mapped hr, if_pos ⟨rfl, rfl⟩, if_pos hp]
    · show (frameOf k.allocFrame.1).val ≠ 0
      omega
    · apply mapPage_used
      show k.allocFrame.2.used (frameOf k.allocFrame.1).val = true
      rw [hfr, hal]
      exact Words.testBit_setBit_self _ _
  · exact absurd hr hr'

theorem Kernel.Roomy.shares (h : Roomy n k) (pa : Nat) :
    (k.shareCow pa).1 = true ∧ Roomy n (k.shareCow pa).2 := by
  unfold Kernel.shareCow allocCowPage
  rw [h.kmalloc]
  cases k.findCowPage pa with
  | none => exact ⟨rfl, h.keep rfl rfl rfl⟩
  | some c => exact ⟨rfl, h.keep rfl rfl rfl⟩

theorem Kernel.Roomy.protects (h : Roomy n k) (src addr : Nat) (e : PageTableEntry) (pa : Nat) :
    (k.protectPage src addr e pa).1 = true ∧ Roomy n (k.protectPage src addr e pa).2 := by
  unfold Kernel.protectPage
  split
  · exact (h.setWritable src addr false).shares pa
  · exact ⟨rfl, h⟩

theorem protectPage_dir_of_ne (k : Kernel) {src pd : Nat} (hne : pd ≠ src) (addr : Nat)
    (e : PageTableEntry) (pa : Nat) : (k.protectPage src addr e pa).2.dir pd = k.dir pd := by
  unfold protectPage
  split
  · obtain ⟨cs, answers, hs⟩ := (k.setWritable src addr false).shareCow_frame pa
    rw [hs]
    show (k.setWritable src addr false).dir pd = k.dir pd
    unfold setWritable
    split
    · rfl
    · unfold setEntry
      simp only
      split
      · exact Function.update_of_ne hne _ _
      · rfl
  · rfl

/-- A page of a fork: the child gets the frame of the parent. -/
theorem Kernel.Roomy.copies (h : Roomy (n + 1) k) {dst src addr : Nat} (hne : dst ≠ src)
    {e : PageTableEntry} (hm : k.mapped src (pageOf addr) = some e) (hz : e.frame.val ≠ 0)
    (ht : ((k.dir dst).tables (pdIndex addr)).present = false) :
    (copyPage dst src addr k).1 = none ∧ Roomy n (copyPage dst src addr k).2 ∧
      (copyPage dst src addr k).2.frameAt src (pageOf addr) = some e.frame ∧
      (copyPage dst src addr k).2.frameAt dst (pageOf addr) = some e.frame ∧
      ∀ f, k.used f = true → (copyPage dst src addr k).2.used f = true := by
  have hpa := getPhysicalAddr_of_mapped hm
  obtain ⟨hq, hroom⟩ := h.protects src addr e (e.frame.val * 4096 + addr % 4096)
  rcases k.copyPage_cases dst src addr with ⟨h0, _⟩ | ⟨e', pa, hm', hpa', _, hcases⟩
  · rw [hpa] at h0
    omega
  rw [hm] at hm'
  cases hm'
  subst hpa'
  have hp : e.present = true := by
    obtain ⟨_, _, _, hp⟩ := pageTable_of_mapped hm
    exact hp
  have hfr := protectPage_frameAt hm (e.frame.val * 4096 + addr % 4096) src (pageOf addr)
  have hb := protectPage_books k src addr e (e.frame.val * 4096 + addr % 4096)
  have hdir := protectPage_dir_of_ne k hne addr e (e.frame.val * 4096 + addr % 4096)
  generalize k.protectPage src addr e (e.frame.val * 4096 + addr % 4096) = q at *
  have hr := hroom.mapPage_fresh dst addr (e.frame.val * 4096 + addr % 4096) (passedFlags e)
    (by rw [hdir]; exact ht)
  rcases hcases with ⟨hf, _⟩ | ⟨_, hr', _⟩ | ⟨_, _, he⟩
  · rw [hq] at hf
    exact absurd hf (by decide)
  · exact absurd hr hr'
  · rw [he]
    refine ⟨rfl, hroom.mapPage _ _ _ _, ?_, ?_, ?_⟩
    · unfold frameAt
      rw [mapPage_mapped_of_ne (fun hc => hne hc.1.symm)]
      exact hfr.trans (frameAt_of_mapped hm)
    · unfold frameAt
      rw [mapPage_mapped hr, if_pos ⟨rfl, rfl⟩, newEntry_passedFlags hp]
      simp [hp]
    · intro f hf
      apply mapPage_used
      rw [used_of_books hb]
      exact hf

/-- A state after a fork: processes 1 and 2 have the page at `USER_OFFSET` on
frame `f`. -/
structure Forked (f : Fin maxFrames) (k : Kernel) : Prop where
  parent : 1 ∈ k.live
  child : 2 ∈ k.live
  parentFrame : k.frameAt 1 (pageOf userOffset) = some f
  childFrame : k.frameAt 2 (pageOf userOffset) = some f
  marked : k.used f.val = true
  running : k.hung = false

/-- Making a directory. -/
theorem Kernel.Roomy.stepCreate (h : Roomy (n + 1) k) {pd : Nat} (hpd : pd ∉ k.live) :
    ∃ k', frameStep k ([], .cow (.create pd)) = some k' ∧ Roomy n k' ∧
      k'.live = insert pd k.live ∧ (∃ a, k'.dir pd = emptyDirectory a) ∧
      (∀ pd', pd' ≠ pd → k'.dir pd' = k.dir pd') ∧ ∀ f, k.used f = true → k'.used f = true := by
  obtain ⟨_, hr, hl, hd⟩ := h.withAnswers.createPageDirectory pd
  refine ⟨_, frameStep_cow ⟨by simp [CowCall.dirs], by simpa [CowCall.fresh] using hpd⟩ hr.running,
    hr, hl, ?_, ?_, ?_⟩
  · refine ⟨(k.withAnswers []).allocFrame.1, ?_⟩
    simp only [CowCall.exec]
    rw [hd, Function.update_self]
  · intro pd' hne
    simp only [CowCall.exec]
    rw [hd, Function.update_of_ne hne]
    rfl
  · intro f hf
    simp only [CowCall.exec]
    rcases (k.withAnswers []).createPageDirectory_cases pd with he | he
    · rw [he, h.withAnswers.kmalloc]
      exact hf
    · rw [he, h.withAnswers.kmalloc]
      exact used_allocFrame_of_used (k := k.withAnswers []) hf

/-- Mapping the page at `USER_OFFSET`. -/
theorem Kernel.Roomy.stepMap (h : Roomy (n + 2) k) (pd : Nat) (hpd : pd ∈ k.live)
    (ht : ((k.dir pd).tables (pdIndex userOffset)).present = false) :
    ∃ k' e, frameStep k ([], .cow (.mapPages pd userOffset (userOffset + 4096) 7 2)) = some k' ∧
      Roomy n k' ∧ k'.live = k.live ∧ k'.mapped pd (pageOf userOffset) = some e ∧
      e.frame.val ≠ 0 ∧ k'.used e.frame.val = true := by
  obtain ⟨hnone, hr, e, hm, hz, hu⟩ :=
    h.withAnswers.mapsFresh pd userOffset 7 (by decide) ht
  have he : CowCall.exec (k.withAnswers []) (.mapPages pd userOffset (userOffset + 4096) 7 2) =
      (mapFreshPage pd 7 userOffset (k.withAnswers [])).2 := by
    simp only [CowCall.exec, mapPages, pageLoop_one hnone]
  have hl : (mapFreshPage pd 7 userOffset (k.withAnswers [])).2.live = k.live := by
    rcases (k.withAnswers []).mapFreshPage_cases pd 7 userOffset with
      ⟨_, he⟩ | ⟨_, _, he⟩ | ⟨_, _, he⟩
    · rw [he]
      exact live_of_rest (allocFrame_rest _)
    · rw [he]
      exact live_of_rest ((mapPage_rest _ _ _ _ _).trans (allocFrame_rest _))
    · rw [he]
      exact live_of_rest
        ((freeFrame_rest _ _).trans ((mapPage_rest _ _ _ _ _).trans (allocFrame_rest _)))
  refine ⟨_, e, frameStep_cow ⟨by simpa [CowCall.dirs] using hpd, by simp [CowCall.fresh]⟩ ?_, ?_⟩
  · rw [he]
    exact hr.running
  · rw [he]
    exact ⟨hr, hl, hm, hz, hu⟩

/-- Copying that page to a directory that has no table yet. -/
theorem Kernel.Roomy.stepCopy (h : Roomy (n + 1) k) (dst src : Nat) (hne : dst ≠ src)
    (hdst : dst ∈ k.live) (hsrc : src ∈ k.live) {e : PageTableEntry}
    (hm : k.mapped src (pageOf userOffset) = some e) (hz : e.frame.val ≠ 0)
    (ht : ((k.dir dst).tables (pdIndex userOffset)).present = false) :
    ∃ k', frameStep k ([], .cow (.copy dst src userOffset (userOffset + 4096) 2)) = some k' ∧
      Roomy n k' ∧ k'.live = k.live ∧ k'.frameAt src (pageOf userOffset) = some e.frame ∧
      k'.frameAt dst (pageOf userOffset) = some e.frame ∧
      ∀ f, k.used f = true → k'.used f = true := by
  obtain ⟨hnone, hr, h1, h2, hu⟩ := h.withAnswers.copies hne hm hz ht
  have he : CowCall.exec (k.withAnswers []) (.copy dst src userOffset (userOffset + 4096) 2) =
      (copyPage dst src userOffset (k.withAnswers [])).2 := by
    simp only [CowCall.exec, cowCopyPageRange, pageLoop_one hnone]
  refine ⟨_, frameStep_cow ⟨by simp [CowCall.dirs, hdst, hsrc], by simp [CowCall.fresh]⟩ ?_, ?_⟩
  · rw [he]
    exact hr.running
  · rw [he]
    exact ⟨hr, copyPage_live _ _ _, h1, h2, hu⟩

/-- Making a process with one page and forking it, from any state with room. -/
theorem forked_run (h : Roomy 5 k) (h1 : 1 ∉ k.live) (h2 : 2 ∉ k.live) :
    ∃ k' f, Reaches frameStep FreesMarkedStep k k' ∧ Forked f k' := by
  obtain ⟨k₁, s₁, hr₁, hl₁, ⟨a₁, hd₁⟩, _, _⟩ := h.stepCreate h1
  obtain ⟨k₂, e, s₂, hr₂, hl₂, hm₂, hz, hu₂⟩ :=
    Kernel.Roomy.stepMap (n := 2) hr₁ 1 (by simp [hl₁]) (by rw [hd₁]; rfl)
  obtain ⟨k₃, s₃, hr₃, hl₃, ⟨a₃, hd₃⟩, hkeep₃, hu₃⟩ :=
    hr₂.stepCreate (show 2 ∉ k₂.live by simp [hl₂, hl₁, h2])
  have hm₃ : k₃.mapped 1 (pageOf userOffset) = some e := by
    unfold mapped
    rw [hkeep₃ 1 (by decide)]
    exact hm₂
  obtain ⟨k₄, s₄, hr₄, hl₄, hp, hc, hu₄⟩ :=
    hr₃.stepCopy 2 1 (by decide) (by simp [hl₃]) (by simp [hl₃, hl₂, hl₁]) hm₃ hz
      (by rw [hd₃]; rfl)
  refine ⟨k₄, e.frame, ?_, ?_, ?_, hp, hc, hu₄ _ (hu₃ _ hu₂), hr₄.running⟩
  · have r₁ : Reaches frameStep FreesMarkedStep k k₁ := .tail .refl (by exact True.intro) s₁
    have r₂ : Reaches frameStep FreesMarkedStep k k₂ := r₁.tail (by exact True.intro) s₂
    have r₃ : Reaches frameStep FreesMarkedStep k k₃ := r₂.tail (by exact True.intro) s₃
    exact r₃.tail (by exact True.intro) s₄
  · simp [hl₄, hl₃, hl₂, hl₁]
  · simp [hl₄, hl₃]

theorem unmapPage_hung (k : Kernel) (pd va : Nat) : (k.unmapPage pd va).hung = k.hung := by
  rcases k.unmapPage_cases pd va with ⟨_, he⟩ | ⟨e, _, he⟩
  · rw [he]
  · rw [he]
    unfold setEntry freeFrame
    simp only
    split <;> split <;> rfl

/-- Unmapping a page. -/
theorem frameStep_unmap {pd : Nat} (hpd : pd ∈ k.live) (hh : k.hung = false) (va : Nat) :
    frameStep k ([], .cow (.unmap pd va)) = some ((k.withAnswers []).unmapPage pd va) := by
  refine frameStep_cow ⟨by simpa [CowCall.dirs] using hpd, by simp [CowCall.fresh]⟩ ?_
  exact (unmapPage_hung _ pd va).trans hh

end

/-- The child of a fork gives up its page: the count is still right. -/
theorem frames_used_exact_after_unmap :
    ∃ k₀ k k', vmmInit 0 [] = some k₀ ∧ Reaches frameStep FreesMarkedStep k₀ k ∧
      frameStep k ([], .cow (.unmap 2 userOffset)) = some k' ∧
      FreesMarkedStep k ([], .cow (.unmap 2 userOffset)) ∧
      k'.framesUsed.toNat = ((Finset.range maxFrames).filter (fun i => k'.used i = true)).card := by
  obtain ⟨k₀, h0, hroom, hl⟩ := vmmInit_roomy 0
  obtain ⟨k, f, hr, hf⟩ := forked_run (hroom.mono (by decide)) (by simp [hl]) (by simp [hl])
  have hs := frameStep_unmap hf.child hf.running userOffset
  have hok : FreesMarkedStep k ([], .cow (.unmap 2 userOffset)) := by
    intro e he
    have hfr : k.frameAt 2 (pageOf userOffset) = some e.frame := frameAt_of_mapped he
    rw [hf.childFrame] at hfr
    cases hfr
    exact hf.marked
  exact ⟨k₀, k, _, h0, hr, hs, hok, (frames_used_exact h0 (hr.tail hok hs)).1⟩

/-- Child and parent both give up the page: two are taken off `frames_used`
for one bit. -/
theorem two_unmaps_lose_count :
    ∃ k₀ k, vmmInit 0 [] = some k₀ ∧ Reaches frameStep (fun _ _ => True) k₀ k ∧
      k.framesUsed.toNat ≠ ((Finset.range maxFrames).filter (fun i => k.used i = true)).card := by
  obtain ⟨k₀, h0, hroom, hl⟩ := vmmInit_roomy 0
  obtain ⟨k, f, hr, hf⟩ := forked_run (hroom.mono (by decide)) (by simp [hl]) (by simp [hl])
  have hcount : Counted k ∧ k.cowMappings = [] :=
    hr.invariant (I := fun k => Counted k ∧ k.cowMappings = [])
      ⟨vmmInit_counted h0, vmmInit_cowMappings h0⟩
      (fun _ _ _ hk hs hstep => counted_step hk hs hstep)
  obtain ⟨e, he, hef⟩ := frameAt_eq_some.mp hf.childFrame
  subst hef
  -- the child's call clears the bit
  have hs₁ := frameStep_unmap hf.child hf.running userOffset
  generalize hk₁ : (k.withAnswers []).unmapPage 2 userOffset = k₁ at hs₁
  have hc₁ : Counted k₁ := by
    rw [← hk₁]
    refine (counted_unmapPage_iff (k := k.withAnswers []) (hcount.1.of_books rfl) _ _).mpr ?_
    intro e' he'
    have heq : some e' = some e := he'.symm.trans he
    cases heq
    exact hf.marked
  have hclear : k₁.used e.frame.val = false := by
    rw [← hk₁, unmapPage_used (k := k.withAnswers []) he]
    simp
  have hparent : k₁.frameAt 1 (pageOf userOffset) = some e.frame := by
    rw [← hk₁, frameAt_unmapPage, if_neg (by simp)]
    exact hf.parentFrame
  have hl₁ : 1 ∈ k₁.live := by
    rw [← hk₁, live_of_rest (unmapPage_rest _ _ _)]
    exact hf.parent
  have hh₁ : k₁.hung = false := by
    rw [← hk₁, unmapPage_hung]
    exact hf.running
  -- the parent's call takes another one off
  have hs₂ := frameStep_unmap hl₁ hh₁ userOffset
  refine ⟨k₀, _, h0, ((hr.mono (fun _ _ _ => True.intro)).tail True.intro hs₁).tail True.intro hs₂, ?_⟩
  intro hbad
  have hmark := (counted_unmapPage_iff (k := k₁.withAnswers []) (hc₁.of_books rfl) 1 userOffset).mp hbad
  obtain ⟨e', he', hef'⟩ := frameAt_eq_some.mp hparent
  have hu := hmark e' he'
  rw [hef'] at hu
  have hu' : k₁.used e.frame.val = true := hu
  rw [hclear] at hu'
  exact absurd hu' (by decide)

end KmOS
