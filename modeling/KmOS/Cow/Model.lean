/-
# `KmOS.Cow.Model` — `COWManager`

The functions of `cow.cc`, over the state of `KmOS.Vmm.State`.

A `struct cow_page *` is represented by the physical address it was found
under: `find_cow_page` returns the first record of the list with that address
and an intact magic number, and none of the functions keeps such a pointer
across a change of the list.

The three range functions share one loop, `for (addr = start; addr < end;
addr += 4096)` on a 32-bit counter.  It is modelled with an iteration bound;
a loop that has not ended within it is marked `hung`.  Results quantify over
the bound, so they cover every call that returns; a range whose counter wraps
around before it reaches `end` never ends by itself.
-/
import KmOS.Vmm.Directory

namespace KmOS

namespace Kernel

/-! ## Records -/

/-- Is this the record `find_cow_page` looks for? -/
def CowPage.isFor (c : CowPage) (physicalAddr : Nat) : Bool :=
  c.physicalAddr == physicalAddr && c.magic == cowMagic

/-- `COWManager::find_cow_page`. -/
def findCowPage (k : Kernel) (physicalAddr : Nat) : Option CowPage :=
  k.cowPages.find? (fun c => CowPage.isFor c physicalAddr)

/-- Rewrite the record found under an address. -/
def modifyCow (physicalAddr : Nat) (f : CowPage → CowPage) : List CowPage → List CowPage
  | [] => []
  | c :: cs =>
      if CowPage.isFor c physicalAddr then f c :: cs else c :: modifyCow physicalAddr f cs

/-- Unlink the record found under an address. -/
def unlinkCow (physicalAddr : Nat) : List CowPage → List CowPage
  | [] => []
  | c :: cs => if CowPage.isFor c physicalAddr then cs else c :: unlinkCow physicalAddr cs

/-- `COWManager::alloc_cow_page`; did the slab cache have room? -/
def allocCowPage (k : Kernel) (physicalAddr : Nat) : Bool × Kernel :=
  match k.kmalloc with
  | (false, k₁) => (false, k₁)
  | (true, k₁) =>
      (true, { k₁ with
        cowPages := { physicalAddr := physicalAddr, refCount := 1, magic := cowMagic } :: k₁.cowPages })

/-- `COWManager::inc_cow_ref`. -/
def incCowRef (k : Kernel) (physicalAddr : Nat) : Kernel :=
  let inc := fun c : CowPage =>
    if c.refCount < maxCowRefs then { c with refCount := c.refCount + 1 } else c
  { k with cowPages := modifyCow physicalAddr inc k.cowPages }

/-- `COWManager::dec_cow_ref`, with the `free_cow_page` it ends in. -/
def decCowRef (k : Kernel) (physicalAddr : Nat) : Kernel :=
  match k.findCowPage physicalAddr with
  | none => k
  | some c =>
      if c.refCount - 1 = 0 then
        let k₁ := k.freeFrame c.physicalAddr
        { k₁ with cowPages := unlinkCow physicalAddr k₁.cowPages }
      else
        let dec := fun c : CowPage => { c with refCount := c.refCount - 1 }
        { k with cowPages := modifyCow physicalAddr dec k.cowPages }

/-! ## Write faults -/

/-- `addr & ~0xFFF`. -/
def pageAddr (addr : Nat) : Nat := addr &&& 0xFFFFF000

/-- The branch that makes the entry writable where it is. -/
def grantWrite (k : Kernel) (pd virtualAddr : Nat) : Int × Kernel :=
  match (k.getPageTable pd virtualAddr false).1 with
  | some _ => (0, k.setWritable pd virtualAddr true)
  | none => (-1, k)

/-- The copy loop: 4096 bytes from `old` to `new`. -/
def copyFrame (k : Kernel) (new old : Nat) : Kernel :=
  { k with physMem := fun a =>
      if new ≤ a ∧ a < new + 4096 then k.physMem (old + (a - new)) else k.physMem a }

/-- `COWManager::break_cow`. -/
def breakCow (k : Kernel) (pd virtualAddr : Nat) : Int × Kernel :=
  let oldPhysical := k.getPhysicalAddr pd virtualAddr
  if oldPhysical = 0 then (-1, k)
  else
    match k.findCowPage oldPhysical with
    | none => k.grantWrite pd virtualAddr
    | some c =>
        if c.refCount = 1 then
          match k.grantWrite pd virtualAddr with
          | (0, k₁) => (0, k₁.decCowRef oldPhysical)
          | r => r
        else
          let (newPhysical, k₁) := k.allocFrame
          if newPhysical = 0 then (-1, k₁)
          else
            let k₂ := (k₁.copyFrame newPhysical oldPhysical).unmapPage pd virtualAddr
            let (result, k₃) := k₂.mapPage pd virtualAddr newPhysical (pgPresent ||| pgWrite ||| pgUser)
            if result = 0 then (result, k₃.decCowRef oldPhysical)
            else (result, k₃.freeFrame newPhysical)

/-- `COWManager::handle_cow_fault`. -/
def handleCowFault (k : Kernel) (pd virtualAddr errorCode : Nat) : Int × Kernel :=
  if errorCode &&& 0x2 = 0 then (-1, k)
  else
    let addr := pageAddr virtualAddr
    let physicalAddr := k.getPhysicalAddr pd addr
    if physicalAddr = 0 then (-1, k)
    else
      match k.findCowPage physicalAddr with
      | none => k.grantWrite pd addr
      | some c => if c.refCount ≤ 1 then k.grantWrite pd addr else k.breakCow pd addr

/-! ## Ranges -/

/-- The loop of the range functions.  `body` answers the value to return, or
`none` to go on with the next page. -/
def pageLoop (body : Nat → Kernel → Option Int × Kernel) (stop : Nat) :
    Nat → Nat → Kernel → Int × Kernel
  | 0, _, k => (0, { k with hung := true })
  | fuel + 1, addr, k =>
      if addr < stop then
        match body addr k with
        | (some r, k') => (r, k')
        | (none, k') => pageLoop body stop fuel ((addr + 4096) % 2 ^ 32) k'
      else (0, k)

/-- The record a page that is being write-protected is counted in: the one
that is there, or a new one. -/
def shareCow (k : Kernel) (physicalAddr : Nat) : Bool × Kernel :=
  match k.findCowPage physicalAddr with
  | some _ => (true, k.incCowRef physicalAddr)
  | none =>
      match k.allocCowPage physicalAddr with
      | (false, k₁) => (false, k₁)
      | (true, k₁) => (true, k₁.incCowRef physicalAddr)

/-- One page of `cow_copy_page_range`. -/
def copyPage (dst src : Nat) (addr : Nat) (k : Kernel) : Option Int × Kernel :=
  let physicalAddr := k.getPhysicalAddr src addr
  if physicalAddr = 0 then (none, k)
  else
    match (k.getPageTable src addr false).1 with
    | none => (none, k)
    | some t =>
        let e := t (ptIndex addr)
        if e.present = false then (none, k)
        else
          let flags := (if e.present then pgPresent else 0) ||| (if e.user then pgUser else 0)
          -- a page that is read-only already is passed on without being counted
          let (counted, k₁) :=
            if e.writable then (k.setWritable src addr false).shareCow physicalAddr else (true, k)
          if counted = false then (some (-1), k₁)
          else
            let (result, k₂) := k₁.mapPage dst addr physicalAddr flags
            if result = 0 then (none, k₂) else (some result, k₂)

/-- `COWManager::cow_copy_page_range`. -/
def cowCopyPageRange (k : Kernel) (dst src start stop fuel : Nat) : Int × Kernel :=
  pageLoop (copyPage dst src) stop fuel start k

/-- One page of `cow_free_page_range`. -/
def freePage (pd : Nat) (addr : Nat) (k : Kernel) : Option Int × Kernel :=
  let physicalAddr := k.getPhysicalAddr pd addr
  if physicalAddr = 0 then (none, k)
  else
    let k₁ :=
      match k.findCowPage physicalAddr with
      | some _ => k.decCowRef physicalAddr
      | none => k
    (none, k₁.unmapPage pd addr)

/-- `COWManager::cow_free_page_range`. -/
def cowFreePageRange (k : Kernel) (pd start stop fuel : Nat) : Kernel :=
  (pageLoop (freePage pd) stop fuel start k).2

/-- One page of `map_pages`. -/
def mapFreshPage (pd flags : Nat) (addr : Nat) (k : Kernel) : Option Int × Kernel :=
  let (frame, k₁) := k.allocFrame
  if frame = 0 then (some (-1), k₁)
  else
    let (result, k₂) := k₁.mapPage pd addr frame flags
    if result = 0 then (none, k₂) else (some result, k₂.freeFrame frame)

/-- `COWManager::map_pages`. -/
def mapPages (k : Kernel) (pd start stop flags fuel : Nat) : Int × Kernel :=
  pageLoop (mapFreshPage pd flags) stop fuel start k

/-- `COWManager::cleanup_process_cow`: every mapping record of `pd` is
dropped, and the copy-on-write record it names loses a reference.  No function
of the repository ever makes such a mapping record. -/
def cleanupProcessCow (k : Kernel) (pd : Nat) : Kernel :=
  let k₁ := (k.cowMappings.filter (fun m => m.ownerPd == pd)).foldl
    (fun k m =>
      match m.cowPage with
      | some a => k.decCowRef a
      | none => k) k
  { k₁ with cowMappings := k.cowMappings.filter (fun m => m.ownerPd != pd) }

/-- The memory part of `Process::~Process`. -/
def teardown (k : Kernel) (pd : Nat) : Kernel := (k.cleanupProcessCow pd).destroyPageDirectory pd

end Kernel

open Kernel

/-! ## Calls -/

/-- The calls that create, share and give up mappings. -/
inductive CowCall where
  | create (pd : Nat)
  | mapPages (pd start stop flags fuel : Nat)
  | copy (dst src start stop fuel : Nat)
  | fault (pd va errorCode : Nat)
  | free (pd start stop fuel : Nat)
  | unmap (pd va : Nat)
  | destroy (pd : Nat)
  | teardown (pd : Nat)

/-- The address a call makes a directory at. -/
def CowCall.fresh : CowCall → List Nat
  | .create pd => [pd]
  | _ => []

/-- The directories a call is made on. -/
def CowCall.dirs : CowCall → List Nat
  | .create _ => []
  | .mapPages pd _ _ _ _ | .fault pd _ _ | .free pd _ _ _ | .unmap pd _ | .destroy pd
  | .teardown pd => [pd]
  | .copy dst src _ _ _ => [dst, src]

/-- The state a call leaves. -/
def CowCall.exec (k : Kernel) : CowCall → Kernel
  | .create pd => (k.createPageDirectory pd).2
  | .mapPages pd start stop flags fuel => (k.mapPages pd start stop flags fuel).2
  | .copy dst src start stop fuel => (k.cowCopyPageRange dst src start stop fuel).2
  | .fault pd va errorCode => (k.handleCowFault pd va errorCode).2
  | .free pd start stop fuel => k.cowFreePageRange pd start stop fuel
  | .unmap pd va => k.unmapPage pd va
  | .destroy pd => k.destroyPageDirectory pd
  | .teardown pd => k.teardown pd

/-- May the call be made?  Its directories exist, and a new directory gets an
address that is not in use. -/
def CowCall.Admissible (k : Kernel) (c : CowCall) : Prop :=
  (∀ pd ∈ c.dirs, pd ∈ k.live) ∧ ∀ pd ∈ c.fresh, pd ∉ k.live

instance (k : Kernel) (c : CowCall) : Decidable (c.Admissible k) :=
  inferInstanceAs (Decidable (_ ∧ _))

/-- The same kernel, with the answers `kmalloc` will give next. -/
def Kernel.withAnswers (k : Kernel) (answers : List Bool) : Kernel := { k with kmallocs := answers }

/-- One step of a run: the answers the heap will give during the call, and the
call.  It is a step if the call may be made and comes back. -/
def cowStep (k : Kernel) (c : List Bool × CowCall) : Option Kernel :=
  if c.2.Admissible k then
    let k' := c.2.exec (k.withAnswers c.1)
    if k'.hung then none else some k'
  else none

theorem cowStep_eq {k : Kernel} {c : List Bool × CowCall} (ha : c.2.Admissible k)
    (hh : (c.2.exec (k.withAnswers c.1)).hung = false) :
    cowStep k c = some (c.2.exec (k.withAnswers c.1)) := by
  unfold cowStep
  simp [ha, hh]

/-- **What a step is**: an admissible call, made with the answers given. -/
theorem cowStep_eq_some {k k' : Kernel} {c : List Bool × CowCall} (h : cowStep k c = some k') :
    c.2.Admissible (k.withAnswers c.1) ∧ k' = c.2.exec (k.withAnswers c.1) := by
  unfold cowStep at h
  simp only at h
  split at h
  · next ha =>
      split at h
      · exact absurd h (by simp)
      · exact ⟨ha, (Option.some.inj h).symm⟩
  · exact absurd h (by simp)

/-- An unconditional run. -/
abbrev CowCall.any (_ : Kernel) (_ : List Bool × CowCall) : Prop := True

end KmOS
