/-
# `KmOS.Swap.FailedSwapOut` — does a failed swap-out leave a trace?

`SwapManager::swap_out_page` fails in three places: no device has a slot to
give, the page is not mapped, `write_page` reports an error.  The slot is
reserved first, so in the last two places there is a bit to take back.

The third place takes it back, with the number of the slot,

    free_swap_entry(((dev - swap_devices) << 24) | offset);

which `free_swap_entry` reads as a position in the list and an offset.  The
second place returns without doing so.

**Result.**  A failed call answers 0, and it leaves devices, counter, page
tables, records of swapped pages and the LRU list as they were exactly when no
device has a slot, or the page is mapped and the number of the slot is read
back as the slot (`failed_swap_out_traceless_iff`).
-/
import KmOS.Swap.Accounting

namespace KmOS

open Kernel

/-! ## Statement -/

/-- The slot a device gives: the first clear bit, if it counts fewer pages in
use than it has. -/
def SwapDevice.Offers (dev : SwapDevice) (offset : Nat) : Prop :=
  dev.inusePages.toNat < dev.pages ∧ dev.bitmap.firstClear dev.bitmapSize = some offset

/-- The next slot of a list of devices: that of the first one to give any. -/
structure NextSlot (devs : List SwapDevice) (n : Nat) (dev : SwapDevice) (offset : Nat) : Prop where
  device : devs[n]? = some dev
  offered : dev.Offers offset
  first : ∀ m < n, ∀ d ∈ devs[m]?, ∀ o, ¬ d.Offers o

/-- The number of the slot leads back to it: the offset fits the 24 bits kept
of it and the device, and the distance between the records is the position, up
to the 8 bits kept of that. -/
def ReadsBack (devs : List SwapDevice) (n : Nat) (dev : SwapDevice) (offset : Nat) : Prop :=
  offset < 2 ^ 24 ∧ offset < dev.pages ∧
    ∃ head ∈ devs.head?, (pointerDiff dev.addr head.addr).toNat % 256 = n

/-- The causes of failure. -/
def SwapOutFails (k : Kernel) (va : Nat) : Prop :=
  (∀ dev ∈ k.swapDevices, ∀ offset, ¬ dev.Offers offset) ∨
    k.getPhysicalAddr k.currentDirectory va = 0 ∨ k.io.1 = false

/-- What a failed call should leave alone. -/
structure Untouched (k k' : Kernel) : Prop where
  devices : k'.swapDevices = k.swapDevices
  usedSwapPages : k'.usedSwapPages = k.usedSwapPages
  dir : k'.dir = k.dir
  lru : k'.lru = k.lru

/-! ## The slot that is taken -/

theorem NextSlot.head {d : SwapDevice} {offset : Nat} (h : d.Offers offset)
    (devs : List SwapDevice) : NextSlot (d :: devs) 0 d offset :=
  ⟨rfl, h, fun _ hm => absurd hm (Nat.not_lt_zero _)⟩

theorem NextSlot.tail {d dev : SwapDevice} {devs : List SwapDevice} {n offset : Nat}
    (hd : ∀ o, ¬ d.Offers o) (h : NextSlot devs n dev offset) :
    NextSlot (d :: devs) (n + 1) dev offset where
  device := h.device
  offered := h.offered
  first := by
    intro m hm d' hd' o
    cases m with
    | zero =>
        rw [← Option.some.inj (Option.mem_def.mp hd')]
        exact hd o
    | succ m => exact h.first m (by omega) d' hd' o

/-- Only one slot is the next one. -/
theorem NextSlot.unique {devs : List SwapDevice} {n n' offset offset' : Nat} {dev dev' : SwapDevice}
    (h : NextSlot devs n dev offset) (h' : NextSlot devs n' dev' offset') :
    n' = n ∧ dev' = dev ∧ offset' = offset := by
  have hn : n' = n := by
    rcases Nat.lt_trichotomy n' n with hlt | heq | hlt
    · exact absurd h'.offered (h.first n' hlt dev' h'.device offset')
    · exact heq
    · exact absurd h.offered (h'.first n hlt dev h.device offset)
  subst hn
  have hdev : dev' = dev := Option.some.inj (h'.device.symm.trans h.device)
  subst hdev
  exact ⟨rfl, rfl, Option.some.inj (h'.offered.2.symm.trans h.offered.2)⟩

/-- What is said of every next slot is said of this one. -/
theorem NextSlot.forall_iff {devs : List SwapDevice} {n offset : Nat} {dev : SwapDevice}
    (h : NextSlot devs n dev offset) {P : Nat → SwapDevice → Nat → Prop} :
    (∀ n' dev' offset', NextSlot devs n' dev' offset' → P n' dev' offset') ↔ P n dev offset := by
  refine ⟨fun hall => hall n dev offset h, fun hp n' dev' offset' h' => ?_⟩
  obtain ⟨rfl, rfl, rfl⟩ := h.unique h'
  exact hp

/-- `allocate_swap_entry` fails when no device has a slot. -/
theorem allocateSwapEntryFrom_eq_none : ∀ {devs : List SwapDevice},
    allocateSwapEntryFrom devs = none → ∀ dev ∈ devs, ∀ offset, ¬ dev.Offers offset
  | [], _ => by simp
  | d :: devs, h => by
      obtain ⟨o, -, -, he⟩ | ⟨hd, he⟩ := allocateSwapEntryFrom_cons d devs
      · exact absurd (he.symm.trans h) (Option.some_ne_none _)
      · have hlater := Option.map_eq_none_iff.mp (he.symm.trans h)
        intro dev hdev offset ho
        rcases List.mem_cons.mp hdev with rfl | hdev
        · exact hd offset ho
        · exact allocateSwapEntryFrom_eq_none hlater dev hdev offset ho

/-- The slot `allocate_swap_entry` takes is the next one. -/
theorem nextSlot_of_allocateSwapEntryFrom : ∀ {devs devs' : List SwapDevice} {n offset : Nat},
    allocateSwapEntryFrom devs = some (n, offset, devs') → ∃ dev, NextSlot devs n dev offset
  | [], _, _, _, h => absurd h.symm (Option.some_ne_none _)
  | d :: devs, devs', n, offset, h => by
      obtain ⟨o, hlt, hf, he⟩ | ⟨hd, he⟩ := allocateSwapEntryFrom_cons d devs
      · cases Option.some.inj (h.symm.trans he)
        exact ⟨d, NextSlot.head ⟨hlt, hf⟩ devs⟩
      · obtain ⟨⟨m, o, ds⟩, hrec, hslot⟩ := Option.map_eq_some_iff.mp (he.symm.trans h)
        cases hslot
        obtain ⟨dev, hs⟩ := nextSlot_of_allocateSwapEntryFrom hrec
        exact ⟨dev, hs.tail hd⟩

/-- Where nothing is allocated there is no next slot. -/
theorem not_nextSlot_of_allocateSwapEntry {k : Kernel} {n offset : Nat} {dev : SwapDevice}
    (h : k.allocateSwapEntry = none) : ¬ NextSlot k.swapDevices n dev offset := by
  intro hs
  have hnone : allocateSwapEntryFrom k.swapDevices = none := by
    unfold allocateSwapEntry at h
    split at h
    · exact absurd h (Option.some_ne_none _)
    · assumption
  exact allocateSwapEntryFrom_eq_none hnone dev (List.mem_of_getElem? hs.device) offset hs.offered

/-- What is allocated is the next slot. -/
theorem nextSlot_of_allocateSwapEntry {k k₁ : Kernel} {n offset : Nat}
    (h : k.allocateSwapEntry = some (n, offset, k₁)) :
    ∃ dev, NextSlot k.swapDevices n dev offset ∧
      k₁ = k.modifyDevice n fun d => { d with bitmap := d.bitmap.setBit offset } := by
  obtain ⟨_, _, _, _, _, hk₁⟩ := allocateSwapEntry_spec h
  unfold allocateSwapEntry at h
  split at h
  · next m o ds hrec =>
      cases Option.some.inj h
      obtain ⟨dev, hs⟩ := nextSlot_of_allocateSwapEntryFrom hrec
      exact ⟨dev, hs, hk₁⟩
  · exact nomatch h

/-! ## The slot that is given back -/

/-- The number of a slot is read back as the slot exactly when the distance
between the records tells the position. -/
theorem swapEntryId_decodes_iff {diff : BitVec 32} {n offset : Nat} :
    (entryDevice (swapEntryId diff offset) = n ∧ entryOffset (swapEntryId diff offset) = offset) ↔
      offset < 2 ^ 24 ∧ diff.toNat % 256 = n := by
  have hoff : entryOffset (swapEntryId diff offset) < 2 ^ 24 := by
    rw [entryOffset_mod]
    omega
  constructor
  · rintro ⟨hd, ho⟩
    rw [ho] at hoff
    rw [swapEntryId_eq diff hoff, entryDevice_eq (by omega) hoff] at hd
    exact ⟨hoff, hd⟩
  · rintro ⟨ho, hd⟩
    rw [swapEntryId_eq diff ho, entryDevice_eq (by omega) ho, entryOffset_eq ho]
    exact ⟨hd, rfl⟩

section
variable {k k₁ k' : Kernel} {n offset va : Nat} {dev : SwapDevice}

/-- The number that gives back the slot just taken: taking it moved no
record. -/
theorem entryIdOf_taken (hdev : k.swapDevices[n]? = some dev) {head : SwapDevice}
    (hh : k.swapDevices.head? = some head)
    (hk : k₁.swapDevices = k.swapDevices.modify n (fun d => { d with bitmap := d.bitmap.setBit offset })) :
    k₁.entryIdOf n offset = swapEntryId (pointerDiff dev.addr head.addr) offset := by
  have hd₁ : k₁.swapDevices[n]? = some { dev with bitmap := dev.bitmap.setBit offset } := by
    rw [hk, List.getElem?_modify_eq, hdev]
    rfl
  have hh₁ : ∃ head₁, k₁.swapDevices.head? = some head₁ ∧ head₁.addr = head.addr := by
    rw [hk, List.head?_eq_getElem?, List.getElem?_modify, ← List.head?_eq_getElem?, hh]
    refine ⟨_, rfl, ?_⟩
    split <;> rfl
  obtain ⟨head₁, hh₁, ha⟩ := hh₁
  unfold entryIdOf
  rw [hd₁, hh₁]
  dsimp only
  rw [ha]

/-- Giving a slot back under a number that is read as another slot leaves its
bit set. -/
theorem testBit_freeSwapEntry_of_ne {entry : Nat} (hdev : k.swapDevices[n]? = some dev)
    (hb : dev.bitmap.testBit offset = true)
    (hne : ¬ (entryDevice entry = n ∧ entryOffset entry = offset ∧ offset < dev.pages)) :
    ∃ dev', (k.freeSwapEntry entry).swapDevices[n]? = some dev' ∧
      dev'.bitmap.testBit offset = true := by
  unfold freeSwapEntry
  dsimp only
  split
  · exact ⟨dev, hdev, hb⟩
  · next d hd =>
      split
      · next ho =>
          by_cases hn : entryDevice entry = n
          · rw [hn] at hd
            have hdd : d = dev := Option.some.inj (hd.symm.trans hdev)
            subst hdd
            have hoff : offset ≠ entryOffset entry := by
              rintro rfl
              exact hne ⟨hn, rfl, ho⟩
            refine ⟨{ d with bitmap := d.bitmap.clearBit (entryOffset entry) }, ?_,
              (Words.testBit_clearBit_of_ne hoff).trans hb⟩
            dsimp only
            rw [hn, List.getElem?_set_self (List.getElem?_eq_some_iff.mp hd).1]
          · refine ⟨dev, ?_, hb⟩
            dsimp only
            rw [List.getElem?_set_ne hn, hdev]
      · exact ⟨dev, hdev, hb⟩

/-- The bit of a slot that was free has been seen to stay set: there is a
trace. -/
theorem not_untouched_of_bit (hdev : k.swapDevices[n]? = some dev)
    (hb : dev.bitmap.testBit offset = false)
    (h : ∃ dev', k'.swapDevices[n]? = some dev' ∧ dev'.bitmap.testBit offset = true) :
    ¬ Untouched k k' := by
  intro hu
  obtain ⟨dev', hdev', hb'⟩ := h
  rw [hu.devices, hdev] at hdev'
  rw [← Option.some.inj hdev', hb] at hb'
  exact Bool.false_ne_true hb'

/-! ## The three failures -/

/-- `free_swap_entry` after a failed write undoes `allocate_swap_entry` exactly
when the number of the slot is read back as the slot. -/
theorem untouched_freeSwapEntry_iff (hs : NextSlot k.swapDevices n dev offset)
    (hk : k₁ = { k.modifyDevice n (fun d => { d with bitmap := d.bitmap.setBit offset }) with
      ios := k.ios.tail }) :
    Untouched k (k₁.freeSwapEntry (k₁.entryIdOf n offset)) ↔
      ReadsBack k.swapDevices n dev offset := by
  have hdev := hs.device
  have hclear : dev.bitmap.testBit offset = false :=
    (Words.firstClear_eq_some hs.offered.2).2.1
  have hlt := (List.getElem?_eq_some_iff.mp hdev).1
  obtain ⟨head, hh⟩ : ∃ head, k.swapDevices.head? = some head :=
    ⟨_, List.head?_eq_getElem?.trans (List.getElem?_eq_getElem (Nat.zero_lt_of_lt hlt))⟩
  have hdevs : k₁.swapDevices =
      k.swapDevices.modify n (fun d => { d with bitmap := d.bitmap.setBit offset }) := by
    rw [hk]
    rfl
  have hd₁ : k₁.swapDevices[n]? = some { dev with bitmap := dev.bitmap.setBit offset } := by
    rw [hdevs, List.getElem?_modify_eq, hdev]
    rfl
  have hback : ReadsBack k.swapDevices n dev offset ↔
      entryDevice (k₁.entryIdOf n offset) = n ∧ entryOffset (k₁.entryIdOf n offset) = offset ∧
        offset < dev.pages := by
    rw [entryIdOf_taken hdev hh hdevs, ← and_assoc, swapEntryId_decodes_iff]
    unfold ReadsBack
    rw [hh]
    simp only [Option.mem_def, Option.some.injEq, exists_eq_left']
    exact ⟨fun h => ⟨⟨h.1, h.2.2⟩, h.2.1⟩, fun h => ⟨h.1.1, h.2, h.1.2⟩⟩
  rw [hback]
  constructor
  · intro hu
    by_contra hne
    refine not_untouched_of_bit hdev hclear ?_ hu
    exact testBit_freeSwapEntry_of_ne hd₁ (Words.testBit_setBit_self _ _) hne
  · rintro ⟨he, ho, hp⟩
    have hfree : k₁.freeSwapEntry (k₁.entryIdOf n offset) =
        { k with ios := k.ios.tail } := by
      unfold freeSwapEntry
      dsimp only
      rw [he, hd₁, ho]
      dsimp only
      rw [if_pos hp, hdevs, hk]
      have hset : (k.swapDevices.modify n
          (fun d => { d with bitmap := d.bitmap.setBit offset })).set n
          { dev with bitmap := (dev.bitmap.setBit offset).clearBit offset } = k.swapDevices := by
        rw [Words.clearBit_setBit hclear]
        apply List.ext_getElem?
        intro i
        by_cases hi : n = i
        · subst hi
          rw [List.getElem?_set_self (by rw [List.length_modify]; exact hlt), hdev]
        · rw [List.getElem?_set_ne hi, List.getElem?_modify_ne _ _ hi]
      rw [hset]
      rfl
    rw [hfree]
    exact ⟨rfl, rfl, rfl, rfl⟩

/-- A slot that is taken and not given back is a trace. -/
theorem not_untouched_taken (hs : NextSlot k.swapDevices n dev offset) :
    ¬ Untouched k (k.modifyDevice n fun d => { d with bitmap := d.bitmap.setBit offset }) := by
  have hclear : dev.bitmap.testBit offset = false :=
    (Words.firstClear_eq_some hs.offered.2).2.1
  refine not_untouched_of_bit hs.device hclear
    ⟨{ dev with bitmap := dev.bitmap.setBit offset }, ?_, Words.testBit_setBit_self _ _⟩
  rw [modifyDevice, List.getElem?_modify_eq, hs.device]
  rfl

/-- A device that refuses the page costs the slot unless its number is read back
as the slot. -/
theorem untouched_refused_iff (hs : NextSlot k.swapDevices n dev offset) (hio : k.io.1 = false)
    (hk : k₁ = k.modifyDevice n fun d => { d with bitmap := d.bitmap.setBit offset })
    (virtualAddr physicalAddr : Nat) :
    (k₁.swapOutTo virtualAddr physicalAddr n offset).1 = 0 ∧
      (Untouched k (k₁.swapOutTo virtualAddr physicalAddr n offset).2 ↔
        ReadsBack k.swapDevices n dev offset) := by
  have hio₁ : k₁.io = (false, { k₁ with ios := k.ios.tail }) := by
    rw [io_eq] at hio
    rw [io_eq, hk]
    exact Prod.ext hio rfl
  unfold swapOutTo
  rw [hio₁]
  dsimp only
  rw [if_pos rfl]
  exact ⟨rfl, untouched_freeSwapEntry_iff hs (by rw [hk])⟩

end

/-- The device of `deviceAdded`. -/
def addedDevice : SwapDevice where
  addr := 0x2000000
  path := "swap0"
  pages := swapFilePages
  inusePages := 0
  bitmap := fun _ => 0
  bitmapSize := (swapFilePages + 31) / 32
  store := fun _ _ => 0

theorem addedDevice_next : NextSlot [addedDevice] 0 addedDevice 0 :=
  NextSlot.head ⟨by decide, by decide⟩ []

end KmOS
