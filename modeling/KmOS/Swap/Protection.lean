/-
# `KmOS.Swap.Protection` — does a read-only page stay read-only?

`handle_cow_fault` takes a page whose frame has no copy-on-write record for a
page with one owner, and makes its entry writable.  A page that `map_page` has
made read-only, and that was never shared, has no record either.

## What is proved

From any state in which a user page is read-only and its frame has no record,
over any sequence of page faults and directory switches, with any answers of
the heap and the devices: the page stays read-only as long as no fault is of one
of two kinds (`FaultCall.GrantsWrite`)

    brought back    the fault is in the page, the current directory has a swap
                    record for it, and `swap_in_page` completes
    written to      the fault is in the page, its address is below `USER_STACK`
                    and not below `USER_OFFSET`, bit 1 of the error code is set,
                    and the frame is not frame 0

(`write_protection_survives`); a fault of these kinds makes the entry writable.

A record is made only where `cow_copy_page_range` passes on a writable page
(`record_of_neverShared`), and `map_page` without `PG_WRITE` makes the entry
read-only (`unshared_mapPage`), so every page the result should be about is one
it is about.

## What is not

One write to the page is enough (`write_fault_lifts_protection`).
-/
import KmOS.Cow.RefCount
import KmOS.Swap.Accounting

namespace KmOS

open Kernel

/-! ## Statement -/

/-- What happens to the kernel: a page fault, or another process runs. -/
inductive FaultCall where
  | fault (faultAddr errorCode : Nat)
  | switch (pd : Nat)

/-- The state a call leaves. -/
def FaultCall.exec (k : Kernel) : FaultCall → Kernel
  | .fault faultAddr errorCode => (k.handlePageFault faultAddr errorCode).2
  | .switch pd => { k with currentDirectory := pd }

/-- One step of a run: a call that comes back, with the answers the heap and
the devices give during it. -/
def faultStep (k : Kernel) (c : SwapAnswers × FaultCall) : Option Kernel :=
  let k' := c.2.exec (k.answering c.1)
  if k'.hung then none else some k'

/-- A page between `USER_OFFSET` and `USER_STACK`. -/
def UserPage (p : PageNo) : Prop := userOffset ≤ p.base ∧ p.base < userStack

/-- Page `p` of directory `pd` is present and read-only. -/
def ReadOnly (pd : Nat) (p : PageNo) (k : Kernel) : Prop :=
  ∃ e, k.mapped pd p = some e ∧ e.writable = false

/-- It is, and its frame has no record. -/
def Unshared (pd : Nat) (p : PageNo) (k : Kernel) : Prop :=
  ∃ e, k.mapped pd p = some e ∧ e.writable = false ∧ k.record e.frame = none

/-- `handle_page_fault` swaps the page in. -/
def BringsBack (k : Kernel) (faultAddr : Nat) : Prop :=
  k.getSwapEntry k.currentDirectory (pageAddr faultAddr) ≠ 0 ∧
    SwapInCompletes k (pageAddr faultAddr)
      (k.getSwapEntry k.currentDirectory (pageAddr faultAddr))

instance (k : Kernel) (faultAddr : Nat) : Decidable (BringsBack k faultAddr) :=
  have : ∀ va, Decidable (TableRoom k.allocFrame.2 k.currentDirectory va) :=
    fun _ => inferInstanceAs (Decidable (_ ∨ _))
  have : ∀ va entry, Decidable (SwapInCompletes k va entry) :=
    fun _ _ => inferInstanceAs (Decidable (_ ∧ _))
  inferInstanceAs (Decidable (_ ∧ _))

/-- The fault is a write to a mapped page of user memory. -/
def WritesUser (k : Kernel) (faultAddr errorCode : Nat) : Prop :=
  (userOffset ≤ faultAddr ∧ faultAddr < userStack) ∧ errorCode &&& 2 ≠ 0 ∧
    ∃ e ∈ k.mapped k.currentDirectory (pageOf faultAddr), e.frame.val ≠ 0

instance (k : Kernel) (faultAddr errorCode : Nat) : Decidable (WritesUser k faultAddr errorCode) :=
  inferInstanceAs (Decidable ((_ ∧ _) ∧ _ ∧ ∃ e ∈ k.mapped _ _, e.frame.val ≠ 0))

/-- The calls after which page `p` of directory `pd` is writable. -/
def FaultCall.GrantsWrite (pd : Nat) (p : PageNo) (k : Kernel) : FaultCall → Prop
  | .fault faultAddr errorCode =>
      (pd = k.currentDirectory ∧ pageOf faultAddr = p) ∧
        (BringsBack k faultAddr ∨ WritesUser k faultAddr errorCode)
  | .switch _ => False

instance (pd : Nat) (p : PageNo) (k : Kernel) : (c : FaultCall) → Decidable (c.GrantsWrite pd p k)
  | .fault _ _ => inferInstanceAs (Decidable ((_ ∧ _) ∧ (_ ∨ _)))
  | .switch _ => inferInstanceAs (Decidable False)

/-- The condition on a step. -/
def KeepsProtection (pd : Nat) (p : PageNo) (k : Kernel) (c : SwapAnswers × FaultCall) : Prop :=
  ¬ c.2.GrantsWrite pd p (k.answering c.1)

instance (pd : Nat) (p : PageNo) (k : Kernel) (c : SwapAnswers × FaultCall) :
    Decidable (KeepsProtection pd p k c) :=
  inferInstanceAs (Decidable (¬ _))

/-! ## Frames that were never shared -/

/-- In this call, no page on frame `f` is passed on by `cow_copy_page_range`
while it is writable. -/
def CowCall.NeverShares (f : Fin maxFrames) (k : Kernel) : CowCall → Prop
  | .copy dst src start stop fuel =>
      LoopOk (copyPage dst src)
        (fun addr k => ∀ e, k.mapped src (pageOf addr) = some e → e.frame = f →
          e.writable = false) stop fuel start k
  | _ => True

/-- No record is made for the address. -/
def Kernel.Unrecorded (a : Nat) (k : Kernel) : Prop := k.findCowPage a = none

section
variable {k k' : Kernel} {a : Nat}

theorem Unrecorded.of_cowPages (h : k.Unrecorded a) (hc : k'.cowPages = k.cowPages) :
    k'.Unrecorded a := by
  unfold Kernel.Unrecorded findCowPage at h ⊢
  rw [hc]
  exact h

theorem Unrecorded.of_rest (h : k.Unrecorded a) (hr : k'.rest = k.rest) : k'.Unrecorded a :=
  Unrecorded.of_cowPages h (congrArg Rest.cowPages hr)

/-- The faults of `cow.cc` make no record. -/
theorem unrecordedRule (pd : Nat) (p : PageNo) :
    FaultRule pd p (fun k k' => k.Unrecorded a → k'.Unrecorded a) where
  refl := fun _ h => h
  trans := fun h h' => h' ∘ h
  aside := fun _ _ _ hr => hr a
  map := fun k pa flags _ h => Unrecorded.of_rest h (k.mapPage_rest pd _ pa flags)
  unmap := fun k _ h => Unrecorded.of_rest h (k.unmapPage_rest pd _)
  permit := fun b _ _ h => Unrecorded.of_rest h (setWritable_rest _ pd _ b)

/-- Counting a sharer makes a record for that address only. -/
theorem unrecorded_shareCow (h : k.Unrecorded a) {pa : Nat} (hne : pa ≠ a) :
    (k.shareCow pa).2.Unrecorded a := by
  have hinc : ∀ k : Kernel, k.Unrecorded a → (k.incCowRef pa).Unrecorded a := by
    intro k hk
    unfold Kernel.Unrecorded at hk ⊢
    rw [findCowPage_eq_none] at hk ⊢
    intro c hc
    rcases mem_modifyCow hc with hc | ⟨c₀, hc₀, rfl⟩
    · exact hk c hc
    · have h₀ := hk c₀ hc₀
      split
      · exact h₀
      · exact h₀
  have hmal : k.kmalloc.2.Unrecorded a := Unrecorded.of_rest h k.kmalloc_rest
  unfold shareCow
  cases hf : k.findCowPage pa with
  | some c => exact hinc k h
  | none =>
      unfold allocCowPage
      rcases hm : k.kmalloc with ⟨_ | _, k₁⟩
      · rw [hm] at hmal
        exact hmal
      · rw [hm] at hmal
        apply hinc
        unfold Kernel.Unrecorded at hmal ⊢
        rw [findCowPage_eq_none] at hmal ⊢
        intro c hc
        rcases List.mem_cons.mp hc with rfl | hc
        · simp [CowPage.isFor, hne]
        · exact hmal c hc

/-- One page of `cow_copy_page_range`. -/
theorem unrecorded_copyPage {f : Fin maxFrames} {dst src addr : Nat}
    (h : k.Unrecorded (f.val * 4096))
    (hok : ∀ e, k.mapped src (pageOf addr) = some e → e.frame = f → e.writable = false) :
    (copyPage dst src addr k).2.Unrecorded (f.val * 4096) := by
  rcases k.copyPage_cases dst src addr with ⟨_, he⟩ | ⟨e, pa, hm, hpa, _, hcases⟩
  · rw [he]
    exact h
  have hprotect : (k.protectPage src addr e pa).2.Unrecorded (f.val * 4096) := by
    unfold protectPage
    cases hw : e.writable with
    | false => exact h
    | true =>
        have hne : pa ≠ f.val * 4096 := by
          intro heq
          have hframe : e.frame = f := Fin.ext (by omega)
          exact absurd ((hok e hm hframe).symm.trans hw) (by decide)
        exact unrecorded_shareCow (Unrecorded.of_rest h (k.setWritable_rest src addr false)) hne
  have hmap := Unrecorded.of_rest hprotect
    ((k.protectPage src addr e pa).2.mapPage_rest dst addr pa (passedFlags e))
  rcases hcases with ⟨_, he⟩ | ⟨_, _, he⟩ | ⟨_, _, he⟩
  · rw [he]
    exact hprotect
  · rw [he]
    exact hmap
  · rw [he]
    exact hmap

/-- One page of `map_pages`. -/
theorem unrecorded_mapFreshPage (h : k.Unrecorded a) (pd flags addr : Nat) :
    (mapFreshPage pd flags addr k).2.Unrecorded a := by
  have halloc := Unrecorded.of_rest h k.allocFrame_rest
  have hmap := Unrecorded.of_rest halloc
    (k.allocFrame.2.mapPage_rest pd addr k.allocFrame.1 flags)
  rcases k.mapFreshPage_cases pd flags addr with ⟨_, he⟩ | ⟨_, _, he⟩ | ⟨_, _, he⟩
  · rw [he]
    exact halloc
  · rw [he]
    exact hmap
  · rw [he]
    exact Unrecorded.of_rest hmap (freeFrame_rest _ _)

/-- One page of `cow_free_page_range`. -/
theorem unrecorded_freePage (h : k.Unrecorded a) (pd addr : Nat) :
    (freePage pd addr k).2.Unrecorded a := by
  rcases k.freePage_cases pd addr with he | ⟨e, _, _, he⟩
  · rw [he]
    exact h
  · rw [he]
    exact Unrecorded.of_rest (findCowPage_decCowRef h _) (unmapPage_rest _ pd addr)

theorem unrecorded_teardown (h : k.Unrecorded a) (pd : Nat) : (k.teardown pd).Unrecorded a := by
  have hclean : (k.cleanupProcessCow pd).Unrecorded a := by
    unfold cleanupProcessCow
    refine Unrecorded.of_cowPages (k := List.foldl _ k _) ?_ rfl
    refine foldl_invariant (fun k' : Kernel => k'.Unrecorded a) _ ?_ _ k h
    intro k' m hk'
    split
    · exact findCowPage_decCowRef hk' _
    · exact hk'
  exact Unrecorded.of_cowPages hclean (destroyPageDirectory_cow _ pd).1

/-- **A call that never shares the frame makes no record for it.** -/
theorem unrecorded_exec {f : Fin maxFrames} (h : k.Unrecorded (f.val * 4096)) {c : CowCall}
    (hc : c.NeverShares f k) : (c.exec k).Unrecorded (f.val * 4096) := by
  cases c with
  | create pd => exact Unrecorded.of_cowPages h (k.createPageDirectory_cow pd).1
  | mapPages pd start stop flags fuel =>
      exact pageLoop_preserves (P := Kernel.Unrecorded (f.val * 4096)) (fun _ hk => hk)
        (fun addr _ hk => unrecorded_mapFreshPage hk pd flags addr) fuel start k h
  | copy dst src start stop fuel =>
      exact pageLoop_invariant (P := Kernel.Unrecorded (f.val * 4096)) (fun _ hk => hk)
        (fun _ _ hk hok => unrecorded_copyPage hk hok) fuel start k hc h
  | fault pd va errorCode =>
      exact (unrecordedRule pd (pageOf va)).handleCowFault rfl k errorCode h
  | free pd start stop fuel =>
      exact pageLoop_preserves (P := Kernel.Unrecorded (f.val * 4096)) (fun _ hk => hk)
        (fun addr _ hk => unrecorded_freePage hk pd addr) fuel start k h
  | unmap pd va => exact Unrecorded.of_rest h (k.unmapPage_rest pd va)
  | destroy pd => exact Unrecorded.of_cowPages h (k.destroyPageDirectory_cow pd).1
  | teardown pd => exact unrecorded_teardown h pd

/-- **A frame that was never shared from a writable mapping has no record.** -/
theorem record_of_neverShared {f : Fin maxFrames}
    (hr : Reaches cowStep (fun k c => c.2.NeverShares f (k.withAnswers c.1)) boot k) :
    k.record f = none := by
  refine hr.invariant (I := fun k => k.Unrecorded (f.val * 4096)) rfl ?_
  intro k c k' hk hok hs
  obtain ⟨_, rfl⟩ := cowStep_eq_some hs
  exact unrecorded_exec (k := k.withAnswers c.1) hk hok

end

/-! ## Other pages -/

/-- The page has the entry it had, and no record has been made. -/
structure Undisturbed (pd : Nat) (p : PageNo) (k k' : Kernel) : Prop where
  current : k'.currentDirectory = k.currentDirectory
  page : k'.mapped pd p = k.mapped pd p
  records : ∀ a, k.findCowPage a = none → k'.findCowPage a = none

namespace Undisturbed

variable {pd : Nat} {p : PageNo} {k k' k₁ k₂ k₃ : Kernel}

theorem refl (pd : Nat) (p : PageNo) (k : Kernel) : Undisturbed pd p k k :=
  ⟨rfl, rfl, fun _ h => h⟩

theorem trans (h : Undisturbed pd p k₁ k₂) (h' : Undisturbed pd p k₂ k₃) :
    Undisturbed pd p k₁ k₃ where
  current := h'.current.trans h.current
  page := h'.page.trans h.page
  records := fun a ha => h'.records a (h.records a ha)

theorem of_cowPages (hm : k'.mapped pd p = k.mapped pd p)
    (hc : k'.currentDirectory = k.currentDirectory) (hr : k'.cowPages = k.cowPages) :
    Undisturbed pd p k k' where
  current := hc
  page := hm
  records := by
    intro a ha
    unfold findCowPage at ha ⊢
    rw [hr]
    exact ha

/-- Changes the frame allocator and the page-table functions make. -/
theorem of_rest (hm : k'.mapped pd p = k.mapped pd p) (hr : k'.rest = k.rest) :
    Undisturbed pd p k k' :=
  of_cowPages hm (congrArg Rest.currentDirectory hr) (congrArg Rest.cowPages hr)

/-- Writing entries of another page does not disturb this one. -/
theorem rule {pd' : Nat} {p' : PageNo} (hne : ¬ (pd = pd' ∧ p = p')) :
    FaultRule pd' p' (Undisturbed pd p) where
  refl := refl pd p
  trans := trans
  aside := fun hd _ hc hr => ⟨hc, mapped_congr hd pd p, hr⟩
  map := fun k pa flags hp => of_rest (mapPage_mapped_of_ne (hp ▸ hne)) (k.mapPage_rest _ _ pa flags)
  unmap := fun k hp => of_rest
    ((k.unmapPage_mapped pd' _ pd p).trans (if_neg (hp ▸ hne))) (k.unmapPage_rest pd' _)
  permit := fun b hm hp => of_rest
    ((setWritable_mapped hm b pd p).trans (if_neg (hp ▸ hne))) (setWritable_rest _ pd' _ b)

/-- What a fault writes besides entries disturbs no page: it is done for a
fault in another directory as well. -/
theorem aside : FaultRule (pd + 1) p (Undisturbed pd p) :=
  rule (fun h => Nat.ne_of_lt (Nat.lt_succ_self pd) h.1)

theorem finishSwapIn (k : Kernel) (va entry : Nat) :
    Undisturbed pd p k (k.finishSwapIn va entry) := by
  have hfree : Undisturbed pd p k (k.freeSwapEntry entry) := by
    obtain ⟨devs, he⟩ := k.freeSwapEntry_frame entry
    rw [he]
    exact of_cowPages rfl rfl rfl
  have hlru := hfree.trans (aside.addToLru (k.freeSwapEntry entry) va)
  exact hlru.trans (of_cowPages rfl rfl rfl)

/-- The frame may have been mapped, but not to this page. -/
theorem loadPage {va frame : Nat} {page : Page}
    (h : ¬ (pd = k.currentDirectory ∧ p = pageOf va) ∨ (k.loadPage va frame page).1 ≠ 0) :
    Undisturbed pd p k (k.loadPage va frame page).2 := by
  have hread : Undisturbed pd p k (k.io.2.writePage frame page) := by
    rw [io_eq]
    exact of_cowPages rfl rfl rfl
  refine hread.trans (of_rest ?_ (mapPage_rest _ _ _ _ _))
  rcases h with hne | hfail
  · exact mapPage_mapped_of_ne hne
  · exact mapPage_mapped_fail hfail pd p

/-- A page that is not brought back is as it was. -/
theorem of_swapIn_fails {va entry : Nat} (h : ¬ SwapInCompletes k va entry) :
    (k.swapInPage va entry).1 ≠ 0 ∧ Undisturbed pd p k (k.swapInPage va entry).2 := by
  have halloc : Undisturbed pd p k k.allocFrame.2 := aside.allocFrame k
  rcases swapInPage_cases k va entry with ⟨hc, _⟩ | ⟨_, k', he, hk'⟩
  · exact absurd hc h
  rw [he]
  refine ⟨show (-1 : Int) ≠ 0 by decide, ?_⟩
  rcases hk' with rfl | rfl | rfl | ⟨page, hfail, rfl⟩
  · exact refl pd p k'
  · exact halloc
  · have hio : Undisturbed pd p k.allocFrame.2 k.allocFrame.2.io.2 := by
      rw [io_eq]
      exact of_cowPages rfl rfl rfl
    exact (halloc.trans hio).trans (aside.freeFrame _ _)
  · exact (halloc.trans (loadPage (Or.inr hfail))).trans (aside.freeFrame _ _)

/-- A page that is brought back is writable; other pages are as they were. -/
theorem of_swapIn_completes {va entry : Nat} (h : SwapInCompletes k va entry) :
    (k.swapInPage va entry).1 = 0 ∧
      (∃ e, (k.swapInPage va entry).2.mapped k.currentDirectory (pageOf va) = some e ∧
        e.writable = true) ∧
      ∀ pd p, ¬ (pd = k.currentDirectory ∧ p = pageOf va) →
        Undisturbed pd p k (k.swapInPage va entry).2 := by
  have halloc : ∀ pd p, Undisturbed pd p k k.allocFrame.2 := fun _ _ => aside.allocFrame k
  have hcd : k.allocFrame.2.currentDirectory = k.currentDirectory := (halloc 0 (pageOf 0)).current
  rcases swapInPage_cases k va entry with ⟨_, page, hok, he⟩ | ⟨hc, _⟩
  · rw [he]
    refine ⟨rfl, ⟨newEntry k.allocFrame.1 (pgPresent ||| pgWrite ||| pgUser), ?_, rfl⟩, ?_⟩
    · rw [(finishSwapIn _ va entry).page]
      have hmap := mapPage_mapped hok k.currentDirectory (pageOf va)
      rw [if_pos ⟨hcd.symm, rfl⟩] at hmap
      exact hmap
    · intro pd p hne
      rw [← hcd] at hne
      exact ((halloc pd p).trans (loadPage (Or.inl hne))).trans (finishSwapIn _ va entry)
  · exact absurd h hc

/-- Taking the record off the list disturbs no page. -/
theorem forgetSwapped (k : Kernel) (va : Nat) : Undisturbed pd p k (k.forgetSwapped va) := by
  have hrec : Undisturbed pd p k (k.removeSwappedPage k.currentDirectory va) :=
    of_cowPages (mapped_setDir_records k _ _ pd p) rfl rfl
  exact hrec.trans (aside.updatePageAccess _ va)

end Undisturbed

/-! ## The page itself -/

section
variable {pd : Nat} {p : PageNo} {k k' : Kernel}

theorem Unshared.readOnly (h : Unshared pd p k) : ReadOnly pd p k := by
  obtain ⟨e, hm, hw, _⟩ := h
  exact ⟨e, hm, hw⟩

theorem Unshared.of_undisturbed (h : Unshared pd p k) (hu : Undisturbed pd p k k') :
    Unshared pd p k' := by
  obtain ⟨e, hm, hw, hr⟩ := h
  exact ⟨e, hu.page.trans hm, hw, hu.records _ hr⟩

theorem not_readOnly {e : PageTableEntry} (hm : k.mapped pd p = some e)
    (hw : e.writable = true) : ¬ ReadOnly pd p k := by
  rintro ⟨e', hm', hw'⟩
  rw [hm] at hm'
  cases hm'
  exact absurd (hw.symm.trans hw') (by decide)

/-- `map_page` without `PG_WRITE` makes the page read-only. -/
theorem unshared_mapPage {va pa flags : Nat} (hok : (k.mapPage pd va pa flags).1 = 0)
    (hpresent : flags &&& pgPresent ≠ 0) (hwrite : flags &&& pgWrite = 0)
    (hr : k.record (frameOf pa) = none) : Unshared pd (pageOf va) (k.mapPage pd va pa flags).2 := by
  have hm := mapPage_mapped hok pd (pageOf va)
  have hp : (newEntry pa flags).present = true := bne_iff_ne.mpr hpresent
  have hw : (newEntry pa flags).writable = false := by
    show (flags &&& pgWrite != 0) = false
    rw [hwrite]
    rfl
  rw [if_pos ⟨rfl, rfl⟩, if_pos hp] at hm
  have hcow : (k.mapPage pd va pa flags).2.cowPages = k.cowPages :=
    congrArg Rest.cowPages (k.mapPage_rest pd va pa flags)
  refine ⟨newEntry pa flags, hm, hw, ?_⟩
  unfold Kernel.record findCowPage at hr ⊢
  rw [hcow]
  exact hr

/-- The kernel heap lies below user memory. -/
theorem not_kernHeap {a : Nat} (hp : UserPage (pageOf a)) :
    ¬ (kernHeap ≤ a ∧ a < kernHeapLim) := by
  rintro ⟨_, hlt⟩
  obtain ⟨hlo, hhi⟩ := hp
  have hpage := pageOf_eq_iff.mp (pageOf_base (pageOf a))
  simp only [userOffset, userStack, kernHeapLim] at hlo hhi hlt
  omega

/-- A write fault on a page without a record grants the write. -/
theorem handleCowFault_unrecorded {va : Nat} {e : PageTableEntry}
    (hm : k.mapped pd (pageOf va) = some e) (hr : k.record e.frame = none) (errorCode : Nat) :
    k.handleCowFault pd va errorCode =
      if errorCode &&& 2 ≠ 0 ∧ e.frame.val ≠ 0 then (0, k.setWritable pd (pageAddr va) true)
      else (-1, k) := by
  have hbase : k.mapped pd (pageOf (pageAddr va)) = some e := by
    rw [pageOf_pageAddr]
    exact hm
  have hpa := getPhysicalAddr_of_mapped hbase
  rw [pageAddr_mod, Nat.add_zero] at hpa
  unfold Kernel.record at hr
  unfold handleCowFault
  dsimp only
  rw [hpa, hr]
  by_cases hw : errorCode &&& 2 = 0
  · rw [if_pos hw, if_neg (fun h => h.1 hw)]
  · rw [if_neg hw]
    by_cases hz : e.frame.val = 0
    · rw [if_pos (by rw [hz]), if_neg (fun h => h.2 hz)]
    · rw [if_neg (fun h => hz (by omega)), if_pos ⟨hw, hz⟩]
      exact grantWrite_of_mapped hbase

/-- **A fault on the page, when it is not brought back.** -/
theorem handleOtherFault_unshared {a : Nat} (h : Unshared k.currentDirectory (pageOf a) k)
    (hp : UserPage (pageOf a)) (errorCode : Nat) :
    (WritesUser k a errorCode ∧
      ¬ ReadOnly k.currentDirectory (pageOf a) (k.handleOtherFault a errorCode).2) ∨
    (¬ WritesUser k a errorCode ∧ k.handleOtherFault a errorCode = (-1, k)) := by
  obtain ⟨e, hm, _, hr⟩ := h
  have hkern := not_kernHeap hp
  have hcow := handleCowFault_unrecorded hm hr errorCode
  unfold handleOtherFault
  dsimp only
  by_cases hin : userOffset ≤ a ∧ a < userStack
  · rw [if_pos hin, hcow]
    by_cases hg : errorCode &&& 2 ≠ 0 ∧ e.frame.val ≠ 0
    · rw [if_pos hg, if_pos ⟨hin, rfl⟩]
      refine Or.inl ⟨⟨hin, hg.1, e, hm, hg.2⟩, ?_⟩
      have hbase : k.mapped k.currentDirectory (pageOf (pageAddr a)) = some e := by
        rw [pageOf_pageAddr]
        exact hm
      have hset := setWritable_mapped hbase true k.currentDirectory (pageOf a)
      rw [if_pos ⟨rfl, (pageOf_pageAddr a).symm⟩] at hset
      have hacc : Undisturbed k.currentDirectory (pageOf a) _ _ :=
        Undisturbed.aside.updatePageAccess (k.setWritable k.currentDirectory (pageAddr a) true)
          (pageAddr a)
      exact not_readOnly (hacc.page.trans hset) rfl
    · rw [if_neg hg, if_neg (fun h => absurd (show (-1 : Int) = 0 from h.2) (by decide)),
        if_neg hkern]
      refine Or.inr ⟨?_, rfl⟩
      rintro ⟨_, hw, e', he', hz⟩
      rw [Option.mem_def, hm] at he'
      cases he'
      exact hg ⟨hw, hz⟩
  · rw [if_neg hin, if_neg (fun h => hin h.1), if_neg hkern]
    exact Or.inr ⟨fun h => hin h.1, rfl⟩

/-! ## One step -/

/-- A fault elsewhere. -/
theorem handlePageFault_elsewhere {a : Nat}
    (hne : ¬ (pd = k.currentDirectory ∧ pageOf a = p)) (errorCode : Nat) :
    Undisturbed pd p k (k.handlePageFault a errorCode).2 := by
  have hne' : ¬ (pd = k.currentDirectory ∧ p = pageOf (pageAddr a)) := by
    rw [pageOf_pageAddr]
    exact fun h => hne ⟨h.1, h.2.symm⟩
  have hother : ∀ k₁ : Kernel, Undisturbed pd p k k₁ →
      Undisturbed pd p k (k₁.handleOtherFault a errorCode).2 := by
    intro k₁ h₁
    rw [← h₁.current] at hne
    have hrule : FaultRule k₁.currentDirectory (pageOf a) (Undisturbed pd p) :=
      Undisturbed.rule (fun h => hne ⟨h.1, h.2.symm⟩)
    exact h₁.trans (hrule.handleOtherFault rfl errorCode)
  unfold handlePageFault
  dsimp only
  split
  · by_cases hc : SwapInCompletes k (pageAddr a) (k.getSwapEntry k.currentDirectory (pageAddr a))
    · obtain ⟨hres, _, hsame⟩ := Undisturbed.of_swapIn_completes hc
      rw [if_pos hres]
      exact (hsame pd p hne').trans (Undisturbed.forgetSwapped _ _)
    · obtain ⟨hres, hsame⟩ := Undisturbed.of_swapIn_fails hc
      rw [if_neg hres]
      exact hother _ hsame
  · exact hother k (Undisturbed.refl pd p k)

/-- **A fault in the page**: it is as it was, or it has become writable. -/
theorem handlePageFault_own {a : Nat} (h : Unshared k.currentDirectory (pageOf a) k)
    (hp : UserPage (pageOf a)) (errorCode : Nat) :
    ((BringsBack k a ∨ WritesUser k a errorCode) ∧
      ¬ ReadOnly k.currentDirectory (pageOf a) (k.handlePageFault a errorCode).2) ∨
    (¬ (BringsBack k a ∨ WritesUser k a errorCode) ∧
      Undisturbed k.currentDirectory (pageOf a) k (k.handlePageFault a errorCode).2) := by
  have hother : ∀ k₁, Undisturbed k.currentDirectory (pageOf a) k k₁ →
      (WritesUser k a errorCode ∧
        ¬ ReadOnly k.currentDirectory (pageOf a) (k₁.handleOtherFault a errorCode).2) ∨
      (¬ WritesUser k a errorCode ∧
        Undisturbed k.currentDirectory (pageOf a) k (k₁.handleOtherFault a errorCode).2) := by
    intro k₁ h₁
    have hun : Unshared k₁.currentDirectory (pageOf a) k₁ := by
      rw [h₁.current]
      exact h.of_undisturbed h₁
    have hw : WritesUser k₁ a errorCode ↔ WritesUser k a errorCode := by
      unfold WritesUser
      rw [h₁.current, h₁.page]
    have hcases := handleOtherFault_unshared hun hp errorCode
    rw [hw, h₁.current] at hcases
    rcases hcases with hgrant | ⟨hno, he⟩
    · exact Or.inl hgrant
    · rw [he]
      exact Or.inr ⟨hno, h₁⟩
  unfold handlePageFault
  dsimp only
  by_cases hc : BringsBack k a
  · obtain ⟨hz, hc⟩ := hc
    obtain ⟨hres, ⟨e, hm, hw⟩, _⟩ := Undisturbed.of_swapIn_completes hc
    rw [if_pos hz, if_pos hres]
    rw [pageOf_pageAddr] at hm
    have hforget : Undisturbed k.currentDirectory (pageOf a) _ _ :=
      Undisturbed.forgetSwapped (k.swapInPage (pageAddr a)
        (k.getSwapEntry k.currentDirectory (pageAddr a))).2 (pageAddr a)
    exact Or.inl ⟨Or.inl ⟨hz, hc⟩, not_readOnly (hforget.page.trans hm) hw⟩
  · rw [or_iff_right hc]
    by_cases hz : k.getSwapEntry k.currentDirectory (pageAddr a) = 0
    · rw [if_neg (not_not.mpr hz)]
      exact hother k (Undisturbed.refl _ _ k)
    · obtain ⟨hres, hsame⟩ := Undisturbed.of_swapIn_fails (fun h => hc ⟨hz, h⟩)
      rw [if_pos hz, if_neg hres]
      exact hother _ hsame

/-- **What a call does to the page.** -/
theorem exec_cases (hp : UserPage p) (h : Unshared pd p k) (c : FaultCall) :
    (c.GrantsWrite pd p k ∧ ¬ ReadOnly pd p (c.exec k)) ∨
    (¬ c.GrantsWrite pd p k ∧ Unshared pd p (c.exec k)) := by
  cases c with
  | switch pd' => exact Or.inr ⟨not_false, h⟩
  | fault a errorCode =>
      by_cases hown : pd = k.currentDirectory ∧ pageOf a = p
      · obtain ⟨rfl, rfl⟩ := id hown
        rcases handlePageFault_own h hp errorCode with ⟨hg, hw⟩ | ⟨hg, hsame⟩
        · exact Or.inl ⟨⟨hown, hg⟩, hw⟩
        · exact Or.inr ⟨fun hc => hg hc.2, h.of_undisturbed hsame⟩
      · exact Or.inr ⟨fun hc => hown hc.1,
          h.of_undisturbed (handlePageFault_elsewhere hown errorCode)⟩

theorem faultStep_eq_some {c : SwapAnswers × FaultCall} (hs : faultStep k c = some k') :
    k' = c.2.exec (k.answering c.1) := by
  unfold faultStep at hs
  dsimp only at hs
  split at hs
  · exact absurd hs (by simp)
  · exact (Option.some.inj hs).symm

/-- **One step.** -/
theorem unshared_step {c : SwapAnswers × FaultCall} (hp : UserPage p) (h : Unshared pd p k)
    (hok : KeepsProtection pd p k c) (hs : faultStep k c = some k') : Unshared pd p k' := by
  have h₁ : Unshared pd p (k.answering c.1) := h
  rw [faultStep_eq_some hs]
  rcases exec_cases hp h₁ c.2 with ⟨hg, _⟩ | ⟨_, hun⟩
  · exact absurd hg hok
  · exact hun

/-- The condition on a step is exact. -/
theorem readOnly_step_iff {c : SwapAnswers × FaultCall} (hp : UserPage p) (h : Unshared pd p k)
    (hs : faultStep k c = some k') : ReadOnly pd p k' ↔ KeepsProtection pd p k c := by
  have h₁ : Unshared pd p (k.answering c.1) := h
  rw [faultStep_eq_some hs]
  rcases exec_cases hp h₁ c.2 with ⟨hg, hw⟩ | ⟨hg, hun⟩
  · exact ⟨fun hr => absurd hr hw, fun hok => absurd hg hok⟩
  · exact ⟨fun _ => hg, fun _ => hun.readOnly⟩

end

/-! ## The result -/

/-- **Write protection survives faults**, as long as no fault brings the page
back from swap or writes to it; and the next fault leaves the page read-only
exactly when it does neither. -/
theorem write_protection_survives {k₀ k : Kernel} {pd : Nat} {p : PageNo} (hp : UserPage p)
    (h : Unshared pd p k₀) (hr : Reaches faultStep (KeepsProtection pd p) k₀ k) :
    ReadOnly pd p k ∧ ∀ c k', faultStep k c = some k' →
      (ReadOnly pd p k' ↔ KeepsProtection pd p k c) := by
  have hun : Unshared pd p k :=
    hr.invariant (I := Unshared pd p) h (fun _ _ _ hk hok hs => unshared_step hp hk hok hs)
  exact ⟨hun.readOnly, fun _ _ hs => readOnly_step_iff hp hun hs⟩

/-- One directory, with a read-only page at `USER_OFFSET`. -/
def readOnlyDemo : Kernel :=
  let k := (boot.createPageDirectory 1).2
  { (k.allocFrame.2.mapPage 1 userOffset k.allocFrame.1 (pgPresent ||| pgUser)).2 with
    currentDirectory := 1 }

theorem readOnlyDemo_user : UserPage (pageOf userOffset) :=
  ⟨by decide +kernel, by decide +kernel⟩

theorem readOnlyDemo_unshared : Unshared 1 (pageOf userOffset) readOnlyDemo := by
  have h : Unshared 1 (pageOf userOffset) ((boot.createPageDirectory 1).2.allocFrame.2.mapPage 1
      userOffset (boot.createPageDirectory 1).2.allocFrame.1 (pgPresent ||| pgUser)).2 :=
    unshared_mapPage (by decide +kernel) (by decide) (by decide) (by decide +kernel)
  exact h

/-- The page is read, the page behind it is written to and is not there, the
kernel heap grows, and in another directory the address is written to. -/
theorem write_protection_survives_reads :
    ∃ k, Reaches faultStep (KeepsProtection 1 (pageOf userOffset)) readOnlyDemo k ∧
      k.currentDirectory = 2 ∧ ReadOnly 1 (pageOf userOffset) k := by
  obtain ⟨k, hr, hp⟩ := Reaches.of_checked_script faultStep
    (KeepsProtection 1 (pageOf userOffset)) readOnlyDemo (fun k => decide (k.currentDirectory = 2))
    [(⟨[], []⟩, .fault 0x40000123 5), (⟨[], []⟩, .fault 0x40001000 6),
      (⟨[], []⟩, .fault 0x00300000 2), (⟨[], []⟩, .switch 2), (⟨[], []⟩, .fault 0x40000000 7)]
    (by decide +kernel)
  exact ⟨k, hr, of_decide_eq_true hp,
    (write_protection_survives readOnlyDemo_user readOnlyDemo_unshared hr).1⟩

/-- One write to the page. -/
theorem write_fault_lifts_protection :
    UserPage (pageOf userOffset) ∧ Unshared 1 (pageOf userOffset) readOnlyDemo ∧
      ∃ k, faultStep readOnlyDemo (⟨[], []⟩, .fault 0x40000000 7) = some k ∧
        ¬ ReadOnly 1 (pageOf userOffset) k := by
  refine ⟨readOnlyDemo_user, readOnlyDemo_unshared,
    FaultCall.exec (readOnlyDemo.answering ⟨[], []⟩) (.fault 0x40000000 7), ?_, ?_⟩
  · unfold faultStep
    exact if_neg (by decide +kernel)
  · have h : Unshared 1 (pageOf userOffset) (readOnlyDemo.answering ⟨[], []⟩) :=
      readOnlyDemo_unshared
    rcases exec_cases readOnlyDemo_user h (.fault 0x40000000 7) with ⟨_, hw⟩ | ⟨hg, _⟩
    · exact hw
    · exact absurd (by decide +kernel) hg

end KmOS
