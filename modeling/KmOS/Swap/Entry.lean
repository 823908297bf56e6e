/-
# `KmOS.Swap.Entry` — swap slots and the numbers that stand for them

A slot is a device and an offset on it.  `SwapManager` writes a slot down as
one 32-bit number, the device in the top byte and the offset below, and reads
the number back by walking the device list.

The two directions do not use the same notion of device.  Writing takes the
C++ pointer difference `dev - swap_devices`, the distance between two heap
records in units of `sizeof(struct swap_device)`; reading takes the position
in the list.  The language defines the difference only inside one array, where
it is exact; `pointerDiff` rounds down elsewhere.
-/
import KmOS.Vmm.State

namespace KmOS

/-- `sizeof(struct swap_device)`: nine words and four function pointers. -/
def sizeofSwapDevice : Nat := 52

/-- `(u32)(dev - swap_devices)` for records at these addresses. -/
def pointerDiff (dev head : Nat) : BitVec 32 :=
  BitVec.ofInt 32 (((dev : Int) - (head : Int)) / (sizeofSwapDevice : Int))

/-- `((u32)(dev - swap_devices) << 24) | offset`. -/
def swapEntryId (diff : BitVec 32) (offset : Nat) : Nat :=
  ((diff <<< 24) ||| BitVec.ofNat 32 offset).toNat

/-- `(entry >> 24) & 0xFF`. -/
def entryDevice (entry : Nat) : Nat := (entry >>> 24) &&& 0xFF

/-- `entry & 0xFFFFFF`. -/
def entryOffset (entry : Nat) : Nat := entry &&& 0xFFFFFF

namespace Kernel

/-- `SwapManager::allocate_swap_entry`: the first device, in list order, that
counts fewer pages in use than it has and shows a clear bit; the bit is set.
The answer is the position of the device and the offset. -/
def allocateSwapEntryFrom : List SwapDevice → Option (Nat × Nat × List SwapDevice)
  | [] => none
  | dev :: devs =>
      let later :=
        match allocateSwapEntryFrom devs with
        | some (n, offset, devs') => some (n + 1, offset, dev :: devs')
        | none => none
      if dev.inusePages.toNat < dev.pages then
        match dev.bitmap.firstClear dev.bitmapSize with
        | some offset => some (0, offset, { dev with bitmap := dev.bitmap.setBit offset } :: devs)
        | none => later
      else later

/-- The first device has a slot, or the search goes on behind it. -/
theorem allocateSwapEntryFrom_cons (d : SwapDevice) (devs : List SwapDevice) :
    (∃ o, d.inusePages.toNat < d.pages ∧ d.bitmap.firstClear d.bitmapSize = some o ∧
      allocateSwapEntryFrom (d :: devs) =
        some (0, o, { d with bitmap := d.bitmap.setBit o } :: devs)) ∨
    ((∀ o, ¬ (d.inusePages.toNat < d.pages ∧ d.bitmap.firstClear d.bitmapSize = some o)) ∧
      allocateSwapEntryFrom (d :: devs) =
        (allocateSwapEntryFrom devs).map fun slot => (slot.1 + 1, slot.2.1, d :: slot.2.2)) := by
  rw [allocateSwapEntryFrom]
  by_cases hlt : d.inusePages.toNat < d.pages
  · rw [if_pos hlt]
    cases hf : d.bitmap.firstClear d.bitmapSize with
    | some o => exact Or.inl ⟨o, hlt, rfl, rfl⟩
    | none =>
        refine Or.inr ⟨fun o ho => absurd ho.2.symm (Option.some_ne_none o), ?_⟩
        cases allocateSwapEntryFrom devs with
        | none => rfl
        | some slot => rfl
  · rw [if_neg hlt]
    refine Or.inr ⟨fun o ho => hlt ho.1, ?_⟩
    cases allocateSwapEntryFrom devs with
    | none => rfl
    | some slot => rfl

def allocateSwapEntry (k : Kernel) : Option (Nat × Nat × Kernel) :=
  match allocateSwapEntryFrom k.swapDevices with
  | some (n, offset, devs) => some (n, offset, { k with swapDevices := devs })
  | none => none

/-- `SwapManager::free_swap_entry`. -/
def freeSwapEntry (k : Kernel) (entry : Nat) : Kernel :=
  let devId := entryDevice entry
  let offset := entryOffset entry
  match k.swapDevices[devId]? with
  | none => k
  | some dev =>
      if offset < dev.pages then
        { k with swapDevices :=
            k.swapDevices.set devId { dev with bitmap := dev.bitmap.clearBit offset } }
      else k

end Kernel

end KmOS
