/-
# `KmOS.Swap.Accounting` — do the swap counters count the slots?

A slot in use is noted three times: by its bit in `dev->bitmap`, in
`dev->inuse_pages` and in `used_swap_pages`.  `allocate_swap_entry` and
`free_swap_entry` write the bit, `swap_out_page` and `swap_in_page` write the
counters, and `destroy_page_directory` calls `free_swap_entry` alone.

## What is proved

One device is added to a kernel that has none; the heap and the device may
answer anything.  After any sequence of `swap_out_page`, `swap_in_page`,
`remove_swapped_page`, directory switches and `destroy_page_directory` whose
steps meet the condition of `SlotCall.Counting`

    swap_out_page            the page is mapped, or there is no slot to take
    swap_in_page             the slot is in use, or the call does not get
                             as far as giving it back
    destroy_page_directory   no record of the directory names a slot in use

the three notes agree (`slot_counts_exact`).  A `write_page` that fails needs
no condition: the slot that was taken is given back.  For a single call the
condition is exact (`slotsCounted_exec_iff`).

## What is not

`swap_out_page` takes the slot before it looks for the page, and forgets it
when there is no page; a directory that dies with a page out gives the slot
back and leaves both counters (`swap_counters_drift`).
-/
import KmOS.Lib.Run
import KmOS.Swap.Integrity

namespace KmOS

open Kernel

/-! ## Statement -/

/-- The calls of a run. -/
inductive SlotCall where
  | swapOut (va : Nat)
  | swapIn (va entry : Nat)
  | forget (va : Nat)
  | switch (pd : Nat)
  | destroy (pd : Nat)

/-- The state a call leaves. -/
def SlotCall.exec (k : Kernel) : SlotCall → Kernel
  | .swapOut va => (k.swapOutPage va).2
  | .swapIn va entry => (k.swapInPage va entry).2
  | .forget va => k.removeSwappedPage k.currentDirectory va
  | .switch pd => { k with currentDirectory := pd }
  | .destroy pd => k.destroyPageDirectory pd

/-- The answers the heap and the device will give during a call. -/
structure SwapAnswers where
  kmallocs : List Bool
  ios : List Bool

def Kernel.answering (k : Kernel) (a : SwapAnswers) : Kernel :=
  { k with kmallocs := a.kmallocs, ios := a.ios }

/-- One step of a run: a call that comes back. -/
def slotStep (k : Kernel) (c : SwapAnswers × SlotCall) : Option Kernel :=
  let k' := c.2.exec (k.answering c.1)
  if k'.hung then none else some k'

/-- The slot an entry number names is in use. -/
def SlotInUse (k : Kernel) (entry : Nat) : Prop :=
  ∃ dev ∈ k.swapDevices[entryDevice entry]?, entryOffset entry < dev.pages ∧
    dev.bitmap.testBit (entryOffset entry) = true

/-- `swap_in_page` gets as far as giving the slot back: the device is there, a
frame is free, the page is read, and the page table can be had. -/
def SwapInCompletes (k : Kernel) (va entry : Nat) : Prop :=
  k.swapDevices[entryDevice entry]? ≠ none ∧ k.allocFrame.1 ≠ 0 ∧ k.io.1 = true ∧
    TableRoom k.allocFrame.2 k.currentDirectory va

/-- The condition on a call. -/
def SlotCall.Counting (k : Kernel) : SlotCall → Prop
  | .swapOut va => k.allocateSwapEntry ≠ none → k.getPhysicalAddr k.currentDirectory va ≠ 0
  | .swapIn va entry => SwapInCompletes k va entry → SlotInUse k entry
  | .forget _ | .switch _ => True
  | .destroy pd => ∀ r ∈ (k.dir pd).swappedPages, ¬ SlotInUse k r.swapEntry

instance (k : Kernel) : (c : SlotCall) → Decidable (c.Counting k)
  | .swapOut _ => inferInstanceAs (Decidable (_ → _))
  | .swapIn va entry =>
      have : Decidable (TableRoom k.allocFrame.2 k.currentDirectory va) :=
        inferInstanceAs (Decidable (_ ∨ _))
      have : Decidable (SwapInCompletes k va entry) := inferInstanceAs (Decidable (_ ∧ _))
      have : Decidable (SlotInUse k entry) := inferInstanceAs (Decidable (∃ dev ∈ _, _))
      inferInstanceAs (Decidable (_ → _))
  | .forget _ | .switch _ => inferInstanceAs (Decidable True)
  | .destroy pd =>
      have : DecidablePred (fun r : SwappedPageEntry => ¬ SlotInUse k r.swapEntry) :=
        fun _ => inferInstanceAs (Decidable (¬ ∃ dev ∈ _, _))
      inferInstanceAs (Decidable (∀ r ∈ (k.dir pd).swappedPages, ¬ SlotInUse k r.swapEntry))

def SlotCountingStep (k : Kernel) (c : SwapAnswers × SlotCall) : Prop :=
  c.2.Counting (k.answering c.1)

instance (k : Kernel) (c : SwapAnswers × SlotCall) : Decidable (SlotCountingStep k c) :=
  inferInstanceAs (Decidable (SlotCall.Counting _ _))

/-- The three notes agree. -/
def SlotsCounted (k : Kernel) : Prop :=
  (∀ dev ∈ k.swapDevices, dev.inusePages.toNat = dev.bitmap.count (32 * dev.bitmapSize)) ∧
    k.usedSwapPages.toNat = (k.swapDevices.map (fun dev => dev.inusePages.toNat)).sum

/-! ## The invariant -/

/-- The only device has all its slots in the bitmap, few enough for the offset
field of an entry number, and is counted. -/
structure Tallied (dev : SwapDevice) : Prop where
  whole : dev.pages = 32 * dev.bitmapSize
  small : dev.pages ≤ swapFilePages
  counted : dev.inusePages.toNat = dev.bitmap.count dev.pages

/-- One device, and `used_swap_pages` agrees with it. -/
def OneTallied (k : Kernel) : Prop :=
  ∃ dev, k.swapDevices = [dev] ∧ Tallied dev ∧ k.usedSwapPages = dev.inusePages

theorem OneTallied.slotsCounted {k : Kernel} (h : OneTallied k) : SlotsCounted k := by
  obtain ⟨dev, hd, ht, hu⟩ := h
  unfold SlotsCounted
  rw [hd, hu]
  refine ⟨?_, by simp⟩
  intro dev' hdev'
  rw [List.mem_singleton.mp hdev', ← ht.whole]
  exact ht.counted

section
variable {k k' : Kernel}

/-- The devices and the counter of all slots. -/
def Kernel.slots (k : Kernel) : List SwapDevice × BitVec 32 := (k.swapDevices, k.usedSwapPages)

theorem OneTallied.of_slots (h : OneTallied k) (hs : k'.slots = k.slots) : OneTallied k' := by
  have h1 : k'.swapDevices = k.swapDevices := congrArg Prod.fst hs
  have h2 : k'.usedSwapPages = k.usedSwapPages := congrArg Prod.snd hs
  unfold OneTallied
  rw [h1, h2]
  exact h

theorem slots_of_rest (h : k'.rest = k.rest) : k'.slots = k.slots := by
  have h1 : k'.swapDevices = k.swapDevices := congrArg Rest.swapDevices h
  have h2 : k'.usedSwapPages = k.usedSwapPages := congrArg Rest.usedSwapPages h
  unfold Kernel.slots
  rw [h1, h2]

/-- A transfer uses up one answer of the device. -/
theorem io_eq (k : Kernel) : k.io = (k.ios.head?.getD true, { k with ios := k.ios.tail }) := by
  unfold io
  cases h : k.ios with
  | nil =>
      show (true, k) = (true, { k with ios := [] })
      rw [← h]
  | cons b bs => rfl

theorem io_slots (k : Kernel) : k.io.2.slots = k.slots := by
  rw [io_eq]
  rfl

theorem addToLru_slots (k : Kernel) (va : Nat) : (k.addToLru va).slots = k.slots := by
  have h := slots_of_rest k.kmalloc_rest
  unfold addToLru
  rcases hm : k.kmalloc with ⟨_ | _, k₁⟩
  · rw [hm] at h
    exact h
  · rw [hm] at h
    exact h

theorem addSwappedPage_slots (k : Kernel) (pd va entry : Nat) :
    (k.addSwappedPage pd va entry).slots = k.slots := by
  have h := slots_of_rest k.kmalloc_rest
  unfold addSwappedPage
  rcases hm : k.kmalloc with ⟨_ | _, k₁⟩
  · rw [hm] at h
    exact h
  · rw [hm] at h
    exact h

/-! ## Slots taken and given back -/

theorem Tallied.take {dev : SwapDevice} (h : Tallied dev) {offset : Nat} (ho : offset < dev.pages)
    (hb : dev.bitmap.testBit offset = false) (store : Nat → Page) :
    Tallied { dev with
      bitmap := dev.bitmap.setBit offset
      store := store
      inusePages := dev.inusePages + 1 } := by
  refine ⟨h.whole, h.small, ?_⟩
  have hle := dev.bitmap.count_le dev.pages
  have hs := h.small
  simp only [swapFilePages] at hs
  show (dev.inusePages + 1).toNat = (dev.bitmap.setBit offset).count dev.pages
  rw [Words.count_setBit ho hb, BitVec.toNat_add, h.counted]
  exact Nat.mod_eq_of_lt (by simp; omega)

theorem Tallied.give {dev : SwapDevice} (h : Tallied dev) {offset : Nat} (ho : offset < dev.pages)
    (hb : dev.bitmap.testBit offset = true) :
    Tallied { dev with
      bitmap := dev.bitmap.clearBit offset
      inusePages := dev.inusePages - 1 } := by
  refine ⟨h.whole, h.small, ?_⟩
  have hle := dev.bitmap.count_le dev.pages
  have hs := h.small
  have hc := Words.count_clearBit ho hb
  simp only [swapFilePages] at hs
  show (dev.inusePages - 1).toNat = (dev.bitmap.clearBit offset).count dev.pages
  rw [BitVec.toNat_sub, h.counted, show (1 : BitVec 32).toNat = 1 from rfl]
  omega

/-- The only device is the first one. -/
theorem only_device {dev dev' : SwapDevice} {n : Nat} (hd : k.swapDevices = [dev])
    (h : k.swapDevices[n]? = some dev') : n = 0 ∧ dev' = dev := by
  rw [hd] at h
  have hlt := (List.getElem?_eq_some_iff.mp h).1
  have hn : n = 0 := by simpa using hlt
  subst hn
  exact ⟨rfl, (Option.some.inj h).symm⟩

/-- The entry number of a slot on the only device is the offset. -/
theorem entryIdOf_one {dev : SwapDevice} (hd : k.swapDevices = [dev]) {offset : Nat}
    (ho : offset < 2 ^ 24) :
    entryDevice (k.entryIdOf 0 offset) = 0 ∧ entryOffset (k.entryIdOf 0 offset) = offset := by
  have hp : pointerDiff dev.addr dev.addr = 0 := by simp [pointerDiff]
  have he : k.entryIdOf 0 offset = 0 * 2 ^ 24 + offset := by
    unfold entryIdOf
    rw [hd]
    simp only [List.getElem?_cons_zero, List.head?_cons]
    rw [hp, swapEntryId_eq _ ho]
    rfl
  rw [he]
  exact ⟨entryDevice_eq (by decide) ho, entryOffset_eq ho⟩

/-- `free_swap_entry` on the only device. -/
theorem freeSwapEntry_one {dev : SwapDevice} (hd : k.swapDevices = [dev]) {entry : Nat}
    (he : entryDevice entry = 0) (ho : entryOffset entry < dev.pages) :
    k.freeSwapEntry entry =
      { k with swapDevices := [{ dev with bitmap := dev.bitmap.clearBit (entryOffset entry) }] } := by
  unfold freeSwapEntry
  rw [he, hd]
  simp [ho]

/-- Giving back a slot that is not in use changes nothing. -/
theorem freeSwapEntry_idle {dev : SwapDevice} (hd : k.swapDevices = [dev]) {entry : Nat}
    (h : ¬ SlotInUse k entry) : k.freeSwapEntry entry = k := by
  unfold SlotInUse at h
  rcases hdev : k.swapDevices[entryDevice entry]? with _ | dev'
  · unfold freeSwapEntry
    simp only [hdev]
  by_cases ho : entryOffset entry < dev'.pages
  · obtain ⟨hz, rfl⟩ := only_device hd hdev
    have hclear : dev'.bitmap.testBit (entryOffset entry) = false := by
      by_contra hc
      exact h ⟨dev', hdev, ho, by simpa using hc⟩
    rw [freeSwapEntry_one hd hz ho, Words.clearBit_of_clear hclear, ← hd]
  · unfold freeSwapEntry
    simp only [hdev, ho, if_false]

/-! ## The calls -/

theorem recordSwapOut_slots (k : Kernel) (va n entry : Nat) :
    (k.recordSwapOut va n entry).slots =
      (k.swapDevices.modify n (fun dev => { dev with inusePages := dev.inusePages + 1 }),
        k.usedSwapPages + 1) := by
  unfold recordSwapOut
  dsimp only
  have h1 := addSwappedPage_slots k k.currentDirectory va entry
  generalize k.addSwappedPage k.currentDirectory va entry = k₁ at h1 ⊢
  have h2 := (slots_of_rest (k₁.unmapPage_rest k₁.currentDirectory va)).trans h1
  generalize k₁.unmapPage k₁.currentDirectory va = k₂ at h2 ⊢
  have hd : k₂.swapDevices = k.swapDevices := congrArg Prod.fst h2
  have hu : k₂.usedSwapPages = k.usedSwapPages := congrArg Prod.snd h2
  unfold Kernel.slots
  simp only [modifyDevice, removeFromLru, hd, hu]

theorem tallied_swapOut (h : OneTallied k) {va : Nat} (hs : SlotCall.Counting k (.swapOut va)) :
    OneTallied (k.swapOutPage va).2 := by
  obtain ⟨dev, hd, ht, hu⟩ := h
  unfold swapOutPage
  rcases ha : k.allocateSwapEntry with _ | ⟨n, offset, k₁⟩
  · exact ⟨dev, hd, ht, hu⟩
  obtain ⟨dev', hdev', hclear, hlt, _, hk₁⟩ := allocateSwapEntry_spec ha
  obtain ⟨rfl, rfl⟩ := only_device hd hdev'
  have ho : offset < dev'.pages := by
    rw [ht.whole, Nat.mul_comm]
    exact hlt
  have ho' : offset < 2 ^ 24 := by
    have hsm := ht.small
    simp only [swapFilePages] at hsm
    omega
  -- the page is mapped, in the state in which the slot is taken as well
  have hpa : k₁.getPhysicalAddr k₁.currentDirectory va ≠ 0 := by
    have h0 := hs (by rw [ha]; exact Option.some_ne_none _)
    have hdir : k₁.dir = k.dir := by rw [hk₁]; rfl
    have hcd : k₁.currentDirectory = k.currentDirectory := by rw [hk₁]; rfl
    rw [hcd, getPhysicalAddr_congr hdir]
    exact h0
  have hd₁ : k₁.swapDevices = [{ dev' with bitmap := dev'.bitmap.setBit offset }] := by
    rw [hk₁, modifyDevice, hd]
    rfl
  have hu₁ : k₁.usedSwapPages = dev'.inusePages := by
    rw [hk₁]
    exact hu
  dsimp only
  rw [if_neg hpa]
  unfold swapOutTo
  have hio := io_slots k₁
  rcases hm : k₁.io with ⟨_ | _, k₂⟩ <;> rw [hm] at hio
  · -- the write failed: the slot goes back
    have hd₂ : k₂.swapDevices = _ := (congrArg Prod.fst hio).trans hd₁
    have hu₂ : k₂.usedSwapPages = _ := (congrArg Prod.snd hio).trans hu₁
    obtain ⟨he, hoff⟩ := entryIdOf_one hd₂ ho'
    dsimp only
    rw [if_pos rfl, freeSwapEntry_one hd₂ he (by rw [hoff]; exact ho), hoff]
    refine ⟨dev', ?_, ht, hu₂⟩
    simp only [Words.clearBit_setBit hclear]
  · have hd₂ : k₂.swapDevices = _ := (congrArg Prod.fst hio).trans hd₁
    have hu₂ : k₂.usedSwapPages = _ := (congrArg Prod.snd hio).trans hu₁
    dsimp only
    rw [if_neg (by decide)]
    generalize k₁.getPhysicalAddr k₁.currentDirectory va = pa
    have hst : (k₂.storePage 0 offset pa).swapDevices =
        [{ dev' with
          bitmap := dev'.bitmap.setBit offset
          store := Function.update dev'.store offset (k₂.readPage pa) }] := by
      unfold storePage modifyDevice
      rw [hd₂]
      rfl
    have hrec := recordSwapOut_slots (k₂.storePage 0 offset pa) va 0 (k₂.entryIdOf 0 offset)
    rw [hst] at hrec
    refine ⟨_, congrArg Prod.fst hrec, ht.take ho hclear _, ?_⟩
    refine (congrArg Prod.snd hrec).trans ?_
    show k₂.usedSwapPages + 1 = dev'.inusePages + 1
    rw [hu₂]

theorem kmalloc_fst (k : Kernel) : k.kmalloc.1 = k.kmallocs.head?.getD true := by
  unfold kmalloc
  cases k.kmallocs <;> rfl

theorem allocFrame_kmallocs (k : Kernel) : k.allocFrame.2.kmallocs = k.kmallocs := by
  rcases k.allocFrame_cases with ⟨he, _⟩ | ⟨i, _, _, _, he⟩
  · rw [he]
    unfold underPressure
    dsimp only
    split <;> rfl
  · rw [he]
    rfl

theorem allocFrame_fst_congr (hb : k'.frameBitmap = k.frameBitmap) :
    k'.allocFrame.1 = k.allocFrame.1 := by
  unfold allocFrame
  rw [hb]
  cases k.frameBitmap.firstClear (maxFrames / 32) <;> rfl

/-- Whether a page table can be had is up to the tables, the bitmap and the
heap. -/
theorem tableRoom_congr {pd va : Nat} (hd : k'.dir = k.dir) (hb : k'.frameBitmap = k.frameBitmap)
    (hk : k'.kmallocs = k.kmallocs) : TableRoom k' pd va ↔ TableRoom k pd va := by
  unfold TableRoom
  rw [hd, allocFrame_fst_congr hb, kmalloc_fst, kmalloc_fst, allocFrame_kmallocs,
    allocFrame_kmallocs, hk]

/-- The end of `swap_in_page`: the slot is given back, and both counters
know. -/
theorem tallied_finishSwapIn (h : OneTallied k) {va entry : Nat} (hs : SlotInUse k entry) :
    OneTallied (k.finishSwapIn va entry) := by
  obtain ⟨dev, hdev, ho, hb⟩ := hs
  obtain ⟨dev₁, hd, ht, hu⟩ := h
  obtain ⟨hd0, rfl⟩ := only_device hd hdev
  unfold finishSwapIn
  dsimp only
  rw [freeSwapEntry_one hd hd0 ho, hd0]
  have hl := addToLru_slots { k with swapDevices :=
    [{ dev with bitmap := dev.bitmap.clearBit (entryOffset entry) }] } va
  generalize Kernel.addToLru _ va = k₃ at hl ⊢
  have hd₃ : k₃.swapDevices = _ := congrArg Prod.fst hl
  have hu₃ : k₃.usedSwapPages = k.usedSwapPages := congrArg Prod.snd hl
  refine ⟨_, ?_, ht.give ho hb, ?_⟩
  · unfold modifyDevice
    dsimp only
    rw [hd₃]
    rfl
  · show k₃.usedSwapPages - 1 = dev.inusePages - 1
    rw [hu₃, hu]

theorem slotInUse_of_slots (hs : k'.slots = k.slots) (entry : Nat) :
    SlotInUse k' entry ↔ SlotInUse k entry := by
  have h1 : k'.swapDevices = k.swapDevices := congrArg Prod.fst hs
  unfold SlotInUse
  rw [h1]

/-- The frame is filled from the device and mapped. -/
def Kernel.loadPage (k : Kernel) (va frame : Nat) (page : Page) : Int × Kernel :=
  (k.io.2.writePage frame page).mapPage k.currentDirectory va frame
    (pgPresent ||| pgWrite ||| pgUser)

theorem loadPage_tableRoom (k : Kernel) (va frame : Nat) (page : Page) :
    (k.loadPage va frame page).1 = 0 ↔ TableRoom k k.currentDirectory va := by
  unfold loadPage
  rw [io_eq, ← tableRoom_iff]
  exact tableRoom_congr rfl rfl rfl

theorem loadPage_slots (k : Kernel) (va frame : Nat) (page : Page) :
    (k.loadPage va frame page).2.slots = k.slots :=
  (slots_of_rest (mapPage_rest _ _ _ _ _)).trans (io_slots k)

/-- **The three ways `swap_in_page` ends once it has a frame.** -/
theorem Kernel.swapInFrom_cases (k : Kernel) (va entry frame : Nat) (page : Page) :
    (k.io.1 = false ∧ k.swapInFrom va entry frame page = (-1, k.io.2.freeFrame frame)) ∨
    (k.io.1 = true ∧ (k.loadPage va frame page).1 ≠ 0 ∧
      k.swapInFrom va entry frame page = (-1, (k.loadPage va frame page).2.freeFrame frame)) ∨
    (k.io.1 = true ∧ (k.loadPage va frame page).1 = 0 ∧
      k.swapInFrom va entry frame page =
        (0, (k.loadPage va frame page).2.finishSwapIn va entry)) := by
  have hcd : k.io.2.currentDirectory = k.currentDirectory := by rw [io_eq]
  unfold swapInFrom loadPage
  dsimp only
  rw [hcd]
  cases hok : k.io.1 with
  | false => exact Or.inl ⟨rfl, if_pos rfl⟩
  | true =>
      refine Or.inr ?_
      rw [if_neg (by decide)]
      generalize (k.io.2.writePage frame page).mapPage k.currentDirectory va frame
        (pgPresent ||| pgWrite ||| pgUser) = r
      by_cases hr : r.1 = 0
      · exact Or.inr ⟨rfl, hr, if_neg (not_not.mpr hr)⟩
      · exact Or.inl ⟨rfl, hr, if_pos hr⟩

/-- **The ways `swap_in_page` ends.**  It completes; or there is no device, no
frame, no answer from the device or no page table, and it fails. -/
theorem swapInPage_cases (k : Kernel) (va entry : Nat) :
    (SwapInCompletes k va entry ∧ ∃ page,
      (k.allocFrame.2.loadPage va k.allocFrame.1 page).1 = 0 ∧
      k.swapInPage va entry =
        (0, (k.allocFrame.2.loadPage va k.allocFrame.1 page).2.finishSwapIn va entry)) ∨
    (¬ SwapInCompletes k va entry ∧ ∃ k', k.swapInPage va entry = (-1, k') ∧
      (k' = k ∨ k' = k.allocFrame.2 ∨
        k' = k.allocFrame.2.io.2.freeFrame k.allocFrame.1 ∨
        ∃ page, (k.allocFrame.2.loadPage va k.allocFrame.1 page).1 ≠ 0 ∧
          k' = (k.allocFrame.2.loadPage va k.allocFrame.1 page).2.freeFrame k.allocFrame.1)) := by
  have hios : k.allocFrame.2.ios = k.ios := congrArg Rest.ios k.allocFrame_rest
  have hio : k.allocFrame.2.io.1 = k.io.1 := by rw [io_eq, io_eq, hios]
  have hcd : k.allocFrame.2.currentDirectory = k.currentDirectory :=
    congrArg Rest.currentDirectory k.allocFrame_rest
  unfold swapInPage SwapInCompletes
  rcases hdev : k.swapDevices[entryDevice entry]? with _ | dev
  · exact Or.inr ⟨fun hc => hc.1 rfl, k, rfl, Or.inl rfl⟩
  dsimp only
  by_cases hz : k.allocFrame.1 = 0
  · rw [if_pos hz]
    exact Or.inr ⟨fun hc => hc.2.1 hz, _, rfl, Or.inr (Or.inl rfl)⟩
  rw [if_neg hz]
  generalize dev.store (entryOffset entry) = page
  have hroom := loadPage_tableRoom k.allocFrame.2 va k.allocFrame.1 page
  rw [hcd] at hroom
  rw [← hio, ← hroom]
  rcases k.allocFrame.2.swapInFrom_cases va entry k.allocFrame.1 page with
    ⟨h1, he⟩ | ⟨h1, h2, he⟩ | ⟨h1, h2, he⟩
  · refine Or.inr ⟨fun hc => ?_, _, he, Or.inr (Or.inr (Or.inl rfl))⟩
    rw [h1] at hc
    exact absurd hc.2.2.1 (by decide)
  · exact Or.inr ⟨fun hc => h2 hc.2.2.2, _, he, Or.inr (Or.inr (Or.inr ⟨page, h2, rfl⟩))⟩
  · exact Or.inl ⟨⟨Option.some_ne_none dev, hz, h1, h2⟩, page, h2, he⟩

/-- **The two ways `swap_in_page` ends**, as far as the slots go. -/
theorem swapInPage_effect (k : Kernel) (va entry : Nat) :
    (SwapInCompletes k va entry ∧ ∃ k₂ : Kernel, k₂.slots = k.slots ∧
      (k.swapInPage va entry).2 = k₂.finishSwapIn va entry) ∨
    (¬ SwapInCompletes k va entry ∧ (k.swapInPage va entry).2.slots = k.slots) := by
  have hsl : k.allocFrame.2.slots = k.slots := slots_of_rest k.allocFrame_rest
  have hfree : ∀ k' : Kernel, (k'.freeFrame k.allocFrame.1).slots = k'.slots :=
    fun k' => slots_of_rest (k'.freeFrame_rest _)
  rcases swapInPage_cases k va entry with
    ⟨hc, page, _, he⟩ | ⟨hc, k', he, rfl | rfl | rfl | ⟨page, _, rfl⟩⟩
  · rw [he]
    exact Or.inl ⟨hc, _, (loadPage_slots _ va _ page).trans hsl, rfl⟩
  · rw [he]
    exact Or.inr ⟨hc, rfl⟩
  · rw [he]
    exact Or.inr ⟨hc, hsl⟩
  · rw [he]
    exact Or.inr ⟨hc, (hfree _).trans ((io_slots _).trans hsl)⟩
  · rw [he]
    exact Or.inr ⟨hc, (hfree _).trans ((loadPage_slots _ va _ page).trans hsl)⟩

theorem tallied_swapIn (h : OneTallied k) {va entry : Nat}
    (hs : SlotCall.Counting k (.swapIn va entry)) : OneTallied (k.swapInPage va entry).2 := by
  rcases swapInPage_effect k va entry with ⟨hc, k₂, hsl, he⟩ | ⟨_, hsl⟩
  · rw [he]
    exact tallied_finishSwapIn (h.of_slots hsl) ((slotInUse_of_slots hsl entry).mpr (hs hc))
  · exact h.of_slots hsl

/-- The records of a directory, none of which names a slot in use. -/
theorem freeSwapEntries_idle {dev : SwapDevice} : ∀ (l : List SwappedPageEntry) (k : Kernel),
    k.swapDevices = [dev] → (∀ r ∈ l, ¬ SlotInUse k r.swapEntry) →
      l.foldl (fun k s => k.freeSwapEntry s.swapEntry) k = k
  | [], _, _, _ => rfl
  | r :: l, k, hd, h => by
      rw [List.foldl_cons, freeSwapEntry_idle hd (h r List.mem_cons_self)]
      exact freeSwapEntries_idle l k hd (fun r' hr' => h r' (List.mem_cons_of_mem r hr'))

theorem tallied_destroy (h : OneTallied k) {pd : Nat} (hs : SlotCall.Counting k (.destroy pd)) :
    OneTallied (k.destroyPageDirectory pd) := by
  have ht : (k.freeTables (k.dir pd)).slots = k.slots := slots_of_rest (freeTables_rest _ _)
  have h₁ := h.of_slots ht
  obtain ⟨dev, hd, _, _⟩ := id h₁
  have hfold := freeSwapEntries_idle (k.dir pd).swappedPages (k.freeTables (k.dir pd)) hd
    (fun r hr hu => hs r hr ((slotInUse_of_slots ht _).mp hu))
  unfold destroyPageDirectory
  dsimp only
  rw [hfold]
  generalize k.freeTables (k.dir pd) = k₁ at h₁
  split
  · exact (h₁.of_slots (slots_of_rest (k₁.freeFrame_rest _))).of_slots rfl
  · exact h₁.of_slots rfl

theorem tallied_exec (h : OneTallied k) {c : SlotCall} (hs : c.Counting k) :
    OneTallied (c.exec k) := by
  cases c with
  | swapOut va => exact tallied_swapOut h hs
  | swapIn va entry => exact tallied_swapIn h hs
  | forget va => exact h.of_slots rfl
  | switch pd => exact h.of_slots rfl
  | destroy pd => exact tallied_destroy h hs

/-! ### The condition is exact

From a state in which the notes agree, a call that does not meet its condition
leaves a state in which they do not. -/

/-- A device whose bitmap and counter have moved apart. -/
theorem not_slotsCounted {dev : SwapDevice} (hd : k.swapDevices = [dev])
    (hp : dev.pages = 32 * dev.bitmapSize)
    (hne : dev.inusePages.toNat ≠ dev.bitmap.count dev.pages) : ¬ SlotsCounted k := by
  intro hc
  apply hne
  rw [hp]
  exact hc.1 dev (by rw [hd]; exact List.mem_singleton_self dev)

theorem swapOut_unmapped_drifts (h : OneTallied k) {va : Nat}
    (hs : ¬ SlotCall.Counting k (.swapOut va)) : ¬ SlotsCounted (k.swapOutPage va).2 := by
  obtain ⟨dev, hd, ht, _⟩ := h
  simp only [SlotCall.Counting, Classical.not_imp, not_not] at hs
  obtain ⟨hsome, hz⟩ := hs
  rcases ha : k.allocateSwapEntry with _ | ⟨n, offset, k₁⟩
  · exact absurd ha hsome
  obtain ⟨dev', hdev', hclear, hlt, _, hk₁⟩ := allocateSwapEntry_spec ha
  obtain ⟨rfl, rfl⟩ := only_device hd hdev'
  have hdir : k₁.dir = k.dir := by rw [hk₁]; rfl
  have hcd : k₁.currentDirectory = k.currentDirectory := by rw [hk₁]; rfl
  have hout : (k.swapOutPage va).2 = k₁ := by
    unfold swapOutPage
    rw [ha]
    dsimp only
    rw [hcd, getPhysicalAddr_congr hdir, if_pos hz]
  have hd₁ : k₁.swapDevices = [{ dev' with bitmap := dev'.bitmap.setBit offset }] := by
    rw [hk₁, modifyDevice, hd]
    rfl
  rw [hout]
  refine not_slotsCounted hd₁ ht.whole ?_
  have ho : offset < dev'.pages := by
    rw [ht.whole, Nat.mul_comm]
    exact hlt
  dsimp only
  rw [Words.count_setBit ho hclear, ht.counted]
  omega

theorem swapIn_idle_drifts (h : OneTallied k) {va entry : Nat}
    (hs : ¬ SlotCall.Counting k (.swapIn va entry)) : ¬ SlotsCounted (k.swapInPage va entry).2 := by
  simp only [SlotCall.Counting, Classical.not_imp] at hs
  obtain ⟨hc, hidle⟩ := hs
  rcases swapInPage_effect k va entry with ⟨_, k₂, hsl, he⟩ | ⟨hn, _⟩
  · rw [he]
    obtain ⟨dev, hd, ht, _⟩ := h.of_slots hsl
    have hidle₂ : ¬ SlotInUse k₂ entry := fun hu => hidle ((slotInUse_of_slots hsl entry).mp hu)
    have hz : entryDevice entry = 0 := by
      have hdev := hc.1
      have hd' : k.swapDevices = [dev] := (congrArg Prod.fst hsl).symm.trans hd
      rw [hd'] at hdev
      have hlt := List.getElem?_eq_none_iff.not.mp hdev
      simpa using hlt
    have hfin : (k₂.finishSwapIn va entry).swapDevices =
        [{ dev with inusePages := dev.inusePages - 1 }] := by
      have hl : (k₂.addToLru va).swapDevices = [dev] :=
        (congrArg Prod.fst (addToLru_slots k₂ va)).trans hd
      unfold finishSwapIn
      dsimp only
      rw [freeSwapEntry_idle hd hidle₂, hz]
      unfold modifyDevice
      dsimp only
      rw [hl]
      rfl
    refine not_slotsCounted hfin ht.whole ?_
    have hle := dev.bitmap.count_le dev.pages
    have hsm := ht.small
    simp only [swapFilePages] at hsm
    dsimp only
    rw [BitVec.toNat_sub, ht.counted, show (1 : BitVec 32).toNat = 1 from rfl]
    omega
  · exact absurd hc hn

/-- Giving back slots only clears bits, and those named among them. -/
theorem freeSwapEntries_one (dev : SwapDevice) : ∀ (l : List SwappedPageEntry) (k : Kernel)
    (w : Words), k.swapDevices = [{ dev with bitmap := w }] →
    ∃ w', (l.foldl (fun k s => k.freeSwapEntry s.swapEntry) k).swapDevices =
        [{ dev with bitmap := w' }] ∧ (∀ i, w'.testBit i = true → w.testBit i = true) ∧
      ∀ r ∈ l, entryDevice r.swapEntry = 0 → entryOffset r.swapEntry < dev.pages →
        w'.testBit (entryOffset r.swapEntry) = false
  | [], k, w, hd => ⟨w, hd, fun _ h => h, by simp⟩
  | r :: l, k, w, hd => by
      rw [List.foldl_cons]
      by_cases hr : entryDevice r.swapEntry = 0 ∧ entryOffset r.swapEntry < dev.pages
      · rw [freeSwapEntry_one hd hr.1 hr.2]
        obtain ⟨w', h1, h2, h3⟩ := freeSwapEntries_one dev l
          { k with swapDevices :=
              [{ dev with bitmap := w.clearBit (entryOffset r.swapEntry) }] }
          (w.clearBit (entryOffset r.swapEntry)) rfl
        refine ⟨w', h1, ?_, ?_⟩
        · intro i hi
          have := h2 i hi
          rw [Words.testBit_clearBit, Bool.and_eq_true] at this
          exact this.2
        · intro r' hr' hz ho
          rcases List.mem_cons.mp hr' with rfl | hr'
          · by_contra hc
            have := h2 _ (by simpa using hc)
            simp at this
          · exact h3 r' hr' hz ho
      · have hsame : (k.freeSwapEntry r.swapEntry).swapDevices = [{ dev with bitmap := w }] := by
          unfold freeSwapEntry
          rw [hd]
          rcases hz : entryDevice r.swapEntry with _ | m
          · have ho : ¬ entryOffset r.swapEntry < dev.pages := fun ho => hr ⟨hz, ho⟩
            simp [ho, hd]
          · simp [hd]
        obtain ⟨w', h1, h2, h3⟩ := freeSwapEntries_one dev l (k.freeSwapEntry r.swapEntry) w hsame
        refine ⟨w', h1, h2, ?_⟩
        intro r' hr' hz ho
        rcases List.mem_cons.mp hr' with rfl | hr'
        · exact absurd ⟨hz, ho⟩ hr
        · exact h3 r' hr' hz ho

theorem destroy_swapped_drifts (h : OneTallied k) {pd : Nat}
    (hs : ¬ SlotCall.Counting k (.destroy pd)) : ¬ SlotsCounted (k.destroyPageDirectory pd) := by
  simp only [SlotCall.Counting, not_forall, not_not] at hs
  obtain ⟨r, hr, hu⟩ := hs
  have hsl : (k.freeTables (k.dir pd)).slots = k.slots := slots_of_rest (freeTables_rest _ _)
  obtain ⟨dev, hd, ht, _⟩ := h.of_slots hsl
  obtain ⟨dev', hdev', ho, hb⟩ := (slotInUse_of_slots hsl _).mpr hu
  obtain ⟨hz, rfl⟩ := only_device hd hdev'
  obtain ⟨w', h1, h2, h3⟩ :=
    freeSwapEntries_one dev' (k.dir pd).swappedPages (k.freeTables (k.dir pd)) dev'.bitmap hd
  have hend : (k.destroyPageDirectory pd).swapDevices = [{ dev' with bitmap := w' }] := by
    unfold destroyPageDirectory
    dsimp only
    generalize (k.dir pd).swappedPages.foldl _ _ = k₂ at h1
    split
    · exact (congrArg Rest.swapDevices (k₂.freeFrame_rest _)).trans h1
    · exact h1
  refine not_slotsCounted hend ht.whole ?_
  have hlt := Words.count_lt h2 ho (h3 r hr hz ho) hb
  have hcount := ht.counted
  dsimp only
  omega

/-- **A call keeps the notes in step exactly when it meets its condition.** -/
theorem slotsCounted_exec_iff (h : OneTallied k) (c : SlotCall) :
    SlotsCounted (c.exec k) ↔ c.Counting k := by
  constructor
  · intro hc
    by_contra hs
    cases c with
    | swapOut va => exact swapOut_unmapped_drifts h hs hc
    | swapIn va entry => exact swapIn_idle_drifts h hs hc
    | forget va => exact hs True.intro
    | switch pd => exact hs True.intro
    | destroy pd => exact destroy_swapped_drifts h hs hc
  · intro hs
    exact (tallied_exec h hs).slotsCounted

/-- **One step.** -/
theorem tallied_step {c : SwapAnswers × SlotCall} (h : OneTallied k) (hs : SlotCountingStep k c)
    (hstep : slotStep k c = some k') : OneTallied k' := by
  have h' : OneTallied (k.answering c.1) := h.of_slots rfl
  unfold slotStep at hstep
  dsimp only at hstep
  split at hstep
  · exact absurd hstep (by simp)
  · rw [← Option.some.inj hstep]
    exact tallied_exec h' hs

/-- A device just added has no slot in use. -/
theorem tallied_add {addr type : Nat} {path : String} {disk : Nat → Page}
    (hd : k.swapDevices = []) (hu : k.usedSwapPages = 0)
    (h : k.addSwapDevice addr path type disk = (0, k')) : OneTallied k' := by
  have hmal : ∀ {k : Kernel}, k.swapDevices = [] ∧ k.usedSwapPages = 0 →
      k.kmalloc.2.swapDevices = [] ∧ k.kmalloc.2.usedSwapPages = 0 := by
    intro k hk
    have hs := slots_of_rest k.kmalloc_rest
    exact ⟨(congrArg Prod.fst hs).trans hk.1, (congrArg Prod.snd hs).trans hk.2⟩
  have hf : k.findSwapDevice path = none := by
    unfold findSwapDevice
    rw [hd]
    rfl
  have hfail : ∀ {k₁ k₂ : Kernel}, ((-1 : Int), k₁) ≠ (0, k₂) := by simp
  unfold addSwapDevice at h
  rw [hf] at h
  have hm₁ := hmal ⟨hd, hu⟩
  rcases h₁ : k.kmalloc with ⟨_ | _, k₁⟩ <;> rw [h₁] at h hm₁
  · exact absurd h hfail
  have hm₂ := hmal hm₁
  dsimp only at h
  rcases h₂ : k₁.kmalloc with ⟨_ | _, k₂⟩ <;> rw [h₂] at h hm₂
  · exact absurd h hfail
  dsimp only at h
  split at h
  · exact absurd h hfail
  have hm₃ := hmal hm₂
  rcases h₃ : k₂.kmalloc with ⟨_ | _, k₃⟩ <;> rw [h₃] at h hm₃
  · exact absurd h hfail
  have hk' := congrArg Prod.snd h
  dsimp only at hk'
  rw [← hk']
  refine ⟨_, by rw [hm₃.1], ⟨rfl, Nat.le_refl _, ?_⟩, hm₃.2⟩
  have hz : Words.count (fun _ => 0#32) swapFilePages = 0 := by
    unfold Words.count
    rw [Finset.card_eq_zero]
    apply Finset.filter_eq_empty_iff.mpr
    intro i _
    simp [Words.testBit]
  exact hz.symm

end

/-! ## The result -/

/-- **Swap slot accounting**, for runs that swap out mapped pages, swap in
slots in use and destroy directories with no page out. -/
theorem slot_counts_exact {k₀ k₁ k : Kernel} {addr type : Nat} {path : String} {disk : Nat → Page}
    (hd : k₀.swapDevices = []) (hu : k₀.usedSwapPages = 0)
    (hadd : k₀.addSwapDevice addr path type disk = (0, k₁))
    (hr : Reaches slotStep SlotCountingStep k₁ k) : SlotsCounted k := by
  have h : OneTallied k :=
    hr.invariant (I := OneTallied) (tallied_add hd hu hadd)
      (fun _ _ _ hk hs hstep => tallied_step hk hs hstep)
  exact h.slotsCounted

/-- The kernel of `swapDemo`, with one page, and a swap device. -/
def deviceAdded : Kernel :=
  (swapDemo.addSwapDevice 0x2000000 "swap0" swapTypeFile (fun _ _ => 0)).2

/-- The page is refused by the device, goes out, comes back and goes out
again: one slot is in use, and counted. -/
theorem slot_counts_exact_round_trip :
    ∃ k, Reaches slotStep SlotCountingStep deviceAdded k ∧ k.usedSwapPages = 1 ∧
      SlotsCounted k := by
  obtain ⟨k, hr, hp⟩ := Reaches.of_checked_script slotStep SlotCountingStep deviceAdded
    (fun k => decide (k.usedSwapPages = 1))
    [(⟨[], [false]⟩, .swapOut 0x40000000), (⟨[], []⟩, .swapOut 0x40000000),
      (⟨[], []⟩, .swapIn 0x40000000 0), (⟨[], []⟩, .forget 0x40000000),
      (⟨[], []⟩, .swapOut 0x40000000)] (by decide +kernel)
  have hadd : swapDemo.addSwapDevice 0x2000000 "swap0" swapTypeFile (fun _ _ => 0) =
      (0, deviceAdded) := rfl
  have hnone : swapDemo.swapDevices = [] := rfl
  exact ⟨k, hr, of_decide_eq_true hp, slot_counts_exact hnone (by decide +kernel) hadd hr⟩

/-- A call that may go wrong, made for certain. -/
theorem slotStep_of_exec {k : Kernel} {c : SwapAnswers × SlotCall}
    (h : (c.2.exec (k.answering c.1)).hung = false) :
    slotStep k c = some (c.2.exec (k.answering c.1)) := by
  unfold slotStep
  dsimp only
  rw [h]
  rfl

theorem deviceAdded_tallied : OneTallied deviceAdded := by
  have hadd : swapDemo.addSwapDevice 0x2000000 "swap0" swapTypeFile (fun _ _ => 0) =
      (0, deviceAdded) := rfl
  exact tallied_add (by decide +kernel) (by decide +kernel) hadd

/-- Swapping out an address with no page leaves a bit that no counter knows;
and destroying a directory with a page out leaves counters no bit answers
for. -/
theorem swap_counters_drift :
    (∃ k, slotStep deviceAdded (⟨[], []⟩, .swapOut 0x50000000) = some k ∧ ¬ SlotsCounted k) ∧
    ∃ k k', slotStep deviceAdded (⟨[], []⟩, .swapOut 0x40000000) = some k ∧
      slotStep k (⟨[], []⟩, .destroy 1) = some k' ∧ ¬ SlotsCounted k' := by
  have h₀ : OneTallied (deviceAdded.answering ⟨[], []⟩) := deviceAdded_tallied.of_slots rfl
  refine ⟨⟨_, slotStep_of_exec (by decide +kernel), ?_⟩,
    _, _, slotStep_of_exec (by decide +kernel), slotStep_of_exec (by decide +kernel), ?_⟩
  · rw [slotsCounted_exec_iff h₀]
    decide +kernel
  · have h₁ := tallied_exec h₀ (c := .swapOut 0x40000000) (by decide +kernel)
    have h₂ : OneTallied (Kernel.answering
        (SlotCall.exec (deviceAdded.answering ⟨[], []⟩) (.swapOut 0x40000000)) ⟨[], []⟩) :=
      h₁.of_slots rfl
    rw [slotsCounted_exec_iff h₂]
    decide +kernel

end KmOS
