/-
# `KmOS.Swap.Model` — `SwapManager` and the page-fault handler

The functions of `swap.cc` that move pages between memory and the swap
devices, and `VMM::handle_page_fault`, which brings a page back.

A page that is out is remembered in two places: a record in the directory's
`swapped_pages` list, with the entry number of its slot, and the bit and
contents of the slot on its device.  `KmOS.Swap.Entry` has the numbers.

**The devices.**  The only device type of the repository is `SWAP_TYPE_FILE`,
whose `read_page` and `write_page` are stubs that fail.  Here a device keeps
what was written to it, per offset, and whether a transfer succeeds is read
off `ios`.  What a device holds before anything is written is the parameter
`disk` of `addSwapDevice`; `addr` is where `kmalloc` puts its record.

**What is left out.**  The device fields `type`, `flags` and `prio`, which
nothing reads, the statistics, and the page-replacement manager, which none of
these functions asks.
-/
import KmOS.Cow.Model

namespace KmOS

def swapTypeFile : Nat := 0

/-- `dev->pages` as `swap_file_activate` sets it. -/
def swapFilePages : Nat := 65536

namespace Kernel

/-! ## The LRU list -/

def addToLru (k : Kernel) (virtualAddr : Nat) : Kernel :=
  match k.kmalloc with
  | (false, k₁) => k₁
  | (true, k₁) =>
      { k₁ with
        accessCounter := k₁.accessCounter + 1
        lru :=
          { virtualAddr := virtualAddr
            accessTime := k₁.accessCounter + 1
            flags := 0 } :: k₁.lru }

def removeFromLru (k : Kernel) (virtualAddr : Nat) : Kernel :=
  { k with lru := k.lru.eraseP (fun p => p.virtualAddr = virtualAddr) }

/-- `update_page_access`: the first node for the page moves to the front. -/
def updatePageAccess (k : Kernel) (virtualAddr : Nat) : Kernel :=
  match k.lru.find? (fun p => p.virtualAddr = virtualAddr) with
  | some p =>
      { k with
        accessCounter := k.accessCounter + 1
        lru := { p with accessTime := k.accessCounter + 1 } ::
          k.lru.eraseP (fun p => p.virtualAddr = virtualAddr) }
  | none => k.addToLru virtualAddr

/-! ## Records of swapped pages -/

/-- `VMM::add_swapped_page`; its callers ignore the answer. -/
def addSwappedPage (k : Kernel) (pd virtualAddr swapEntry : Nat) : Kernel :=
  match k.kmalloc with
  | (false, k₁) => k₁
  | (true, k₁) =>
      k₁.setDir pd
        { k₁.dir pd with
          swappedPages :=
            { virtualAddr := virtualAddr, swapEntry := swapEntry } :: (k₁.dir pd).swappedPages }

/-- `VMM::get_swap_entry`; 0 when there is no record. -/
def getSwapEntry (k : Kernel) (pd virtualAddr : Nat) : Nat :=
  match (k.dir pd).swappedPages.find? (fun r => r.virtualAddr = virtualAddr) with
  | some r => r.swapEntry
  | none => 0

/-- `VMM::remove_swapped_page`. -/
def removeSwappedPage (k : Kernel) (pd virtualAddr : Nat) : Kernel :=
  k.setDir pd
    { k.dir pd with
      swappedPages := (k.dir pd).swappedPages.eraseP (fun r => r.virtualAddr = virtualAddr) }

/-! ## Transfers -/

/-- The 4096 bytes at a physical address. -/
def readPage (k : Kernel) (physicalAddr : Nat) : Page := fun i => k.physMem (physicalAddr + i.val)

/-- Store 4096 bytes at a physical address. -/
def writePage (k : Kernel) (physicalAddr : Nat) (p : Page) : Kernel :=
  { k with physMem := fun a =>
      if h : physicalAddr ≤ a ∧ a < physicalAddr + 4096 then p ⟨a - physicalAddr, by omega⟩
      else k.physMem a }

/-- Rewrite the `n`-th device of the list. -/
def modifyDevice (k : Kernel) (n : Nat) (f : SwapDevice → SwapDevice) : Kernel :=
  { k with swapDevices := k.swapDevices.modify n f }

/-- The entry number of slot `offset` on the `n`-th device. -/
def entryIdOf (k : Kernel) (n offset : Nat) : Nat :=
  match k.swapDevices[n]?, k.swapDevices.head? with
  | some dev, some head => swapEntryId (pointerDiff dev.addr head.addr) offset
  | _, _ => 0

/-- `dev->write_page(dev, offset, physical_addr)`, when it succeeds. -/
def storePage (k : Kernel) (n offset physicalAddr : Nat) : Kernel :=
  k.modifyDevice n (fun dev =>
    { dev with store := Function.update dev.store offset (k.readPage physicalAddr) })

/-- The end of `swap_out_page`, after the page has been written. -/
def recordSwapOut (k : Kernel) (virtualAddr n swapEntry : Nat) : Kernel :=
  let k₁ := k.addSwappedPage k.currentDirectory virtualAddr swapEntry
  let k₂ := (k₁.unmapPage k₁.currentDirectory virtualAddr).removeFromLru virtualAddr
  ({ k₂ with usedSwapPages := k₂.usedSwapPages + 1 }).modifyDevice n
    (fun dev => { dev with inusePages := dev.inusePages + 1 })

/-- `swap_out_page` once the slot and the page are known. -/
def swapOutTo (k : Kernel) (virtualAddr physicalAddr n offset : Nat) : Nat × Kernel :=
  let (ok, k₁) := k.io
  let swapEntry := k₁.entryIdOf n offset
  if ok = false then (0, k₁.freeSwapEntry swapEntry)
  else (swapEntry, (k₁.storePage n offset physicalAddr).recordSwapOut virtualAddr n swapEntry)

/-- `SwapManager::swap_out_page`. -/
def swapOutPage (k : Kernel) (virtualAddr : Nat) : Nat × Kernel :=
  match k.allocateSwapEntry with
  | none => (0, k)
  | some (n, offset, k₁) =>
      let physicalAddr := k₁.getPhysicalAddr k₁.currentDirectory virtualAddr
      if physicalAddr = 0 then (0, k₁) else k₁.swapOutTo virtualAddr physicalAddr n offset

/-- The end of `swap_in_page`, after the page has been read and mapped. -/
def finishSwapIn (k : Kernel) (virtualAddr swapEntry : Nat) : Kernel :=
  let k₁ := (k.freeSwapEntry swapEntry).addToLru virtualAddr
  ({ k₁ with usedSwapPages := k₁.usedSwapPages - 1 }).modifyDevice (entryDevice swapEntry)
    (fun dev => { dev with inusePages := dev.inusePages - 1 })

/-- `swap_in_page` once the slot and a frame are known. -/
def swapInFrom (k : Kernel) (virtualAddr swapEntry frame : Nat) (page : Page) : Int × Kernel :=
  let (ok, k₁) := k.io
  if ok = false then (-1, k₁.freeFrame frame)
  else
    let (result, k₂) := (k₁.writePage frame page).mapPage k₁.currentDirectory virtualAddr frame
      (pgPresent ||| pgWrite ||| pgUser)
    if result ≠ 0 then (-1, k₂.freeFrame frame)
    else (0, k₂.finishSwapIn virtualAddr swapEntry)

/-- `SwapManager::swap_in_page`. -/
def swapInPage (k : Kernel) (virtualAddr swapEntry : Nat) : Int × Kernel :=
  match k.swapDevices[entryDevice swapEntry]? with
  | none => (-1, k)
  | some dev =>
      let (frame, k₁) := k.allocFrame
      if frame = 0 then (-1, k₁)
      else k₁.swapInFrom virtualAddr swapEntry frame (dev.store (entryOffset swapEntry))

/-! ## Page faults -/

/-- The kernel-heap branch of `handle_page_fault`. -/
def growKernelHeap (k : Kernel) (pageAddr : Nat) : Int × Kernel :=
  let (frame, k₁) := k.allocFrame
  if frame = 0 then (-1, k₁)
  else
    let (result, k₂) := k₁.mapPage k₁.currentDirectory pageAddr frame (pgPresent ||| pgWrite)
    if result ≠ 0 then (-1, k₂.freeFrame frame)
    else (0, k₂.addToLru pageAddr)

/-- What `handle_page_fault` does when the page was not brought back from
swap. -/
def handleOtherFault (k : Kernel) (faultAddr errorCode : Nat) : Int × Kernel :=
  let inUser := userOffset ≤ faultAddr ∧ faultAddr < userStack
  let (cowResult, k₁) :=
    if inUser then k.handleCowFault k.currentDirectory faultAddr errorCode else (-1, k)
  if inUser ∧ cowResult = 0 then (0, k₁.updatePageAccess (pageAddr faultAddr))
  else if kernHeap ≤ faultAddr ∧ faultAddr < kernHeapLim then k₁.growKernelHeap (pageAddr faultAddr)
  else (-1, k₁)

/-- `VMM::handle_page_fault`. -/
def handlePageFault (k : Kernel) (faultAddr errorCode : Nat) : Int × Kernel :=
  let page := pageAddr faultAddr
  let swapEntry := k.getSwapEntry k.currentDirectory page
  if swapEntry ≠ 0 then
    let (result, k₁) := k.swapInPage page swapEntry
    if result = 0 then
      (0, (k₁.removeSwappedPage k₁.currentDirectory page).updatePageAccess page)
    else k₁.handleOtherFault faultAddr errorCode
  else k.handleOtherFault faultAddr errorCode

/-! ## Devices -/

/-- `SwapManager::find_swap_device`: the position of the first device with
that path. -/
def findSwapDevice (k : Kernel) (path : String) : Option Nat :=
  k.swapDevices.findIdx? (fun dev => dev.path = path)

/-- `SwapManager::add_swap_device`, with `swap_file_activate`. -/
def addSwapDevice (k : Kernel) (addr : Nat) (path : String) (type : Nat) (disk : Nat → Page) :
    Int × Kernel :=
  match k.findSwapDevice path with
  | some _ => (-1, k)
  | none =>
      match k.kmalloc with
      | (false, k₁) => (-1, k₁)
      | (true, k₁) =>
          match k₁.kmalloc with
          | (false, k₂) => (-1, k₂)
          | (true, k₂) =>
              if type ≠ swapTypeFile then (-1, k₂)
              else
                match k₂.kmalloc with
                | (false, k₃) => (-1, k₃)
                | (true, k₃) =>
                    (0, { k₃ with
                      swapDevices :=
                        { addr := addr
                          path := path
                          pages := swapFilePages
                          inusePages := 0
                          bitmap := fun _ => 0
                          bitmapSize := (swapFilePages + 31) / 32
                          store := disk } :: k₃.swapDevices
                      totalSwapPages := k₃.totalSwapPages + BitVec.ofNat 32 swapFilePages })

/-- `SwapManager::remove_swap_device`; `swap_file_deactivate` does not fail. -/
def removeSwapDevice (k : Kernel) (path : String) : Int × Kernel :=
  match k.findSwapDevice path with
  | none => (-1, k)
  | some n =>
      match k.swapDevices[n]? with
      | none => (-1, k)
      | some dev =>
          if 0 < dev.inusePages.toNat then (-1, k)
          else
            (0, { k with
              swapDevices := k.swapDevices.eraseIdx n
              totalSwapPages := k.totalSwapPages - BitVec.ofNat 32 dev.pages })

end Kernel

open Kernel

/-! ## Calls -/

/-- The calls of a run, and the stores processes make in between. -/
inductive SwapCall where
  | add (addr : Nat) (path : String) (type : Nat) (disk : Nat → Page)
  | remove (path : String)
  | swapOut (virtualAddr : Nat)
  | fault (faultAddr errorCode : Nat)
  | write (physicalAddr : Nat) (byte : UInt8)

/-- The state a call leaves. -/
def SwapCall.exec (k : Kernel) : SwapCall → Kernel
  | .add addr path type disk => (k.addSwapDevice addr path type disk).2
  | .remove path => (k.removeSwapDevice path).2
  | .swapOut virtualAddr => (k.swapOutPage virtualAddr).2
  | .fault faultAddr errorCode => (k.handlePageFault faultAddr errorCode).2
  | .write physicalAddr byte => { k with physMem := Function.update k.physMem physicalAddr byte }

/-- The same kernel with a heap and devices that do not fail. -/
def Kernel.reliable (k : Kernel) : Kernel := { k with kmallocs := [], ios := [] }

/-- One step of a run: a call that comes back, while `kmalloc` and the devices
succeed. -/
def swapStep (k : Kernel) (c : SwapCall) : Option Kernel :=
  let k' := c.exec k.reliable
  if k'.hung then none else some k'

end KmOS
